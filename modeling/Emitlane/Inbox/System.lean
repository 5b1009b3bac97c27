import Emitlane.Inbox.Process
import Emitlane.Lib.Runs

/-!
# Inbox.System — managed workers, operators and legacy callers on one Inbox

The state is the committed tables, the database clock and the open transactions.  Store calls are atomic and commit at
once; a transaction writes rows, and commits or rolls back later, at any point.  A call that would change a row an open
transaction has written waits for it: the step is not enabled.  A call that fails changes nothing.

A managed worker claims a pair under a fresh token, opens a transaction for its handler, and commits it only after
MarkProcessed has succeeded in it.  Nothing else is assumed of the order of its calls.

`Move` is the lifecycle of one row, and `Next.move` says that every step moves every row along it.
-/

namespace Emitlane.Inbox

/-- What happened. -/
inductive Obs
  /-- A claim returned the pair under a new token. -/
  | claimed (k : Key) (token : Uuid)
  /-- A transaction committed the effects of these pairs. -/
  | committed (t : Nat) (effects : List Key)

structure State where
  clock : Int
  db : Db
  txs : Nat → Option Tx
  /-- The number of the next transaction. -/
  next : Nat
  /-- Newest first. -/
  hist : List Obs

inductive Action
  | tick (d : Nat)
  | claim (req : ClaimRequest) (token : Uuid)
  | renew (k : Key) (token : Uuid) (lease : Int)
  | markRetry (k : Key) (token : Uuid) (delay : Int) (lastError : Bytes)
  | markDead (k : Key) (token : Uuid) (lastError : Bytes)
  | retryDead (request : RetryRequest) (auditID : Uuid)
  | begin (managed : Option (Key × Uuid))
  | markProcessed (t : Nat)
  | process (t : Nat) (consumer eventID : String) (strictDuplicate stale : Bool)
  | return (t : Nat) (ok : Bool)
  | commit (t : Nat)
  | rollback (t : Nat)

/-- A call of `process`. -/
def Action.isLegacy : Action → Bool
  | .process _ _ _ _ _ | .return _ _ => true
  | _ => false

def State.init (clock : Int) : State := { clock := clock, db := Db.empty, txs := fun _ => none, next := 0, hist := [] }

/-- The rows the open transactions have written. -/
def State.writes (s : State) (t : Nat) : Option (List (Txn.Write Row)) := (s.txs t).map (·.work.writes)

/-- A transaction other than `t` has written the row `k`. -/
def State.busy (s : State) (t : Option Nat) (k : Key) : Bool :=
  (List.range s.next).any fun t' => some t' ≠ t && (s.txs t').any fun tx => tx.work.writes.any fun w => w.new.key = k

/-- The token was drawn before. -/
def State.drawn (s : State) (token : Uuid) : Bool := s.hist.any fun
  | .claimed _ token' => token' = token
  | .committed _ _ => false

def State.setTx (s : State) (t : Nat) (tx : Option Tx) : State := { s with txs := Function.update s.txs t tx }

/-- The new tables of a store call on the row `k`. -/
def State.call (s : State) (k : Key) (obs : List Obs) (result : Except Error Db) : Option State :=
  match result with
  | .error _ => some s
  | .ok db =>
    if s.busy none k && decide (db.row k ≠ s.db.row k) then none else some { s with db := db, hist := obs ++ s.hist }

/-- The rows of a transaction become visible. -/
def Db.install (db : Db) : List (Txn.Write Row) → Option Db
  | [] => some db
  | w :: ws => (db.install ws).bind fun db' => (db'.inbox.put (·.key) w.new).map fun t => { db' with inbox := t }

def step (s : State) : Action → Option State
  | .tick d => some { s with clock := s.clock + d }
  | .claim req token =>
    if s.drawn token then none else
    match s.db.claim s.clock req token with
    | .error _ => some s
    | .ok (db, result) =>
      s.call req.key (if result.disposition = .claimed then [.claimed req.key token] else []) (.ok db)
  | .renew k token lease => s.call k [] (s.db.renew s.clock k token lease)
  | .markRetry k token delay lastError => s.call k [] (s.db.markRetry s.clock k token delay lastError)
  | .markDead k token lastError => s.call k [] (s.db.markDead s.clock k token lastError)
  | .retryDead request auditID =>
    s.call (trimSpace request.consumer, request.eventID) [] (s.db.retryDead s.clock request auditID)
  | .begin managed =>
    some { s with txs := Function.update s.txs s.next (some (Tx.begin s.clock managed)), next := s.next + 1 }
  | .markProcessed t =>
    match s.txs t with
    | none => none
    | some tx =>
    match tx.managed with
    | none => none
    | some (k, token) =>
      if tx.calls.isEmpty then
        match markProcessed tx.startedAt token (tx.view s.db k) with
        | .error _ => some s
        | .ok r => if s.busy (some t) k then none else some (s.setTx t (some (tx.mark s.db r)))
      else none
  | .process t consumer eventID strictDuplicate stale =>
    match s.txs t with
    | none => none
    | some tx =>
      if tx.marked then none else
      match tx.process s.db (s.busy (some t)) consumer eventID strictDuplicate stale with
      | none => none
      | some (.error _) => some s
      | some (.ok tx') => some (s.setTx t (some tx'))
  | .return t ok =>
    match s.txs t with
    | none => none
    | some tx => (tx.return s.db ok).map fun x => s.setTx t (some x.1)
  | .commit t =>
    match s.txs t with
    | none => none
    | some tx =>
      if tx.calls.isEmpty && (tx.managed.isNone || tx.marked) then
        (s.db.install tx.work.writes).map fun db =>
          { s.setTx t none with db := db, hist := .committed t tx.effects :: s.hist }
      else none
  | .rollback t => some (s.setTx t none)

/-- The states reached from the migrated empty schema. -/
def Reachable (s : State) : Prop := ∃ clock, Runs.Reach step Runs.Free (State.init clock) s

/-! ## The lifecycle of a row -/

/-- One step of a row at the instant `now`. -/
inductive Move (now : Int) : Option Row → Option Row → Prop
  | stay (r : Option Row) : Move now r r
  | created (req : ClaimRequest) (token : Uuid) : Move now none (some ((pendingRow now req).lease now req token))
  | claimed {r : Row} (req : ClaimRequest) (token : Uuid) (h : r.claimable now = true) :
      Move now (some r) (some (r.lease now req token))
  | renewed {r : Row} {token : Uuid} (lease : Int) (h : r.holds token = true) :
      Move now (some r) (some (r.renewed now lease))
  | retried {r : Row} {token : Uuid} (delay : Int) (lastError : Bytes) (h : r.holds token = true) :
      Move now (some r) (some (r.retried now delay lastError))
  | killed {r : Row} {token : Uuid} (lastError : Bytes) (h : r.holds token = true) :
      Move now (some r) (some (r.killed now lastError))
  | reopened {r : Row} (h : r.status = .dead) : Move now (some r) (some (r.reopened now))
  | marked {r : Row} {token : Uuid} (started : Int) (h : r.holds token = true) :
      Move now (some r) (some (r.processed started))
  | marker (started : Int) (k : Key) : Move now none (some (markerRow started k))

theorem Row.claimable_status {now : Int} {r : Row} (h : r.claimable now = true) : r.status ≠ .processed := by
  intro hs
  simp [Row.claimable, hs] at h

theorem Row.holds_status {token : Uuid} {r : Row} (h : r.holds token = true) : r.status ≠ .processed := by
  rw [(Row.holds_iff.mp h).1]
  decide

/-- No edge leaves `processed`. -/
theorem Move.processed {now : Int} {r : Row} {o : Option Row} (h : Move now (some r) o) (hr : r.status = .processed) :
    o = some r := by
  cases h with
  | stay => rfl
  | claimed req token h => exact absurd hr (Row.claimable_status h)
  | renewed lease h => exact absurd hr (Row.holds_status h)
  | retried delay lastError h => exact absurd hr (Row.holds_status h)
  | killed lastError h => exact absurd hr (Row.holds_status h)
  | reopened h => rw [hr] at h; cases h
  | marked started h => exact absurd hr (Row.holds_status h)

/-! ## What a step does -/

/-- The transactions are numbered from 0. -/
def State.Bounded (s : State) : Prop := ∀ t, s.next ≤ t → s.txs t = none

/-- What a store call on the row `k` does. -/
structure Calls (s : State) (k : Key) (db : Db) (obs : List Obs) : Prop where
  move : Move s.clock (s.db.row k) (db.row k)
  others : ∀ k', k' ≠ k → db.row k' = s.db.row k'
  free : db.row k = s.db.row k ∨ ¬ Txn.Locked (·.key) s.writes k
  /-- A claim is observed, and only a claim gives the row a token. -/
  observed : (obs = [] ∧ ∀ r token, db.row k = some r → r.leaseToken = some token →
      ∃ r0, s.db.row k = some r0 ∧ r0.leaseToken = some token) ∨
    ∃ token, obs = [.claimed k token] ∧ s.drawn token = false ∧ ∃ r, db.row k = some r ∧ r.holds token = true

inductive Next (s : State) : Action → State → Prop
  | tick (d : Nat) : Next s (.tick d) { s with clock := s.clock + d }
  | idle (a : Action) : Next s a s
  | call {a : Action} {k : Key} {db : Db} {obs : List Obs} (h : Calls s k db obs) :
      Next s a { s with db := db, hist := obs ++ s.hist }
  | begin (managed : Option (Key × Uuid)) :
      Next s (.begin managed)
        { s with txs := Function.update s.txs s.next (some (Tx.begin s.clock managed)), next := s.next + 1 }
  | markProcessed {t : Nat} {tx : Tx} {k : Key} {token : Uuid} {r : Row} (htx : s.txs t = some tx)
      (hmanaged : tx.managed = some (k, token)) (hcalls : tx.calls = []) (hview : tx.view s.db k = some r)
      (hholds : r.holds token = true) (hfree : ¬ Txn.LockedFor (·.key) s.writes t k) :
      Next s (.markProcessed t) (s.setTx t (some (tx.mark s.db (r.processed tx.startedAt))))
  | process {t : Nat} {consumer eventID : String} {strictDuplicate stale : Bool} {tx tx' : Tx} {busy : Key → Bool}
      (htx : s.txs t = some tx) (hfree : ∀ k, busy k = false → ¬ Txn.LockedFor (·.key) s.writes t k)
      (hp : tx.process s.db busy consumer eventID strictDuplicate stale = some (.ok tx')) :
      Next s (.process t consumer eventID strictDuplicate stale) (s.setTx t (some tx'))
  | return {t : Nat} {ok : Bool} {tx tx' : Tx} {result : Except Error Bool} (htx : s.txs t = some tx)
      (hr : tx.return s.db ok = some (tx', result)) : Next s (.return t ok) (s.setTx t (some tx'))
  | commit {t : Nat} {tx : Tx} {db : Db} (htx : s.txs t = some tx) (hcalls : tx.calls = [])
      (hmarked : tx.managed.isSome = true → tx.marked = true)
      (hrows : ∀ k, db.row k = Txn.install (·.key) s.db.row tx.work.writes k) :
      Next s (.commit t) { s.setTx t none with db := db, hist := .committed t tx.effects :: s.hist }
  | rollback (t : Nat) : Next s (.rollback t) (s.setTx t none)

section Inversion

variable {s s' : State}

theorem Db.row_install {db db' : Db} : ∀ {ws : List (Txn.Write Row)}, db.install ws = some db' → ∀ k,
    db'.row k = Txn.install (·.key) db.row ws k
  | [], h, k => by
    obtain rfl := Option.some.inj h
    rfl
  | w :: ws, h, k => by
    obtain ⟨db1, h1, h⟩ := Option.bind_eq_some_iff.mp h
    obtain ⟨t, ht, rfl⟩ := Option.map_eq_some_iff.mp h
    have ih := Db.row_install h1 k
    unfold Txn.install at ih ⊢
    rw [Db.row, Rel.Table.lookup_put ht, List.find?_cons]
    by_cases hk : w.new.key = k
    · simp [hk]
    · simp only [hk, decide_false, if_false]
      exact ih

theorem State.not_locked {t : Option Nat} {k : Key} (hb : s.Bounded) (h : s.busy t k = false) :
    ∀ t' ws, some t' ≠ t → s.writes t' = some ws → ¬ Txn.Writes (fun r : Row => r.key) ws k := by
  rintro t' ws hne hws ⟨w, hw, hk⟩
  obtain ⟨tx, htx, rfl⟩ := Option.map_eq_some_iff.mp hws
  have hlt : t' < s.next := by
    by_contra hge
    rw [hb t' (by omega)] at htx
    cases htx
  have hbusy : s.busy t k = true := by
    refine List.any_eq_true.mpr ⟨t', List.mem_range.mpr hlt, ?_⟩
    simp only [htx, Option.any_some, Bool.and_eq_true, decide_eq_true_eq]
    exact ⟨hne, List.any_eq_true.mpr ⟨w, hw, decide_eq_true hk⟩⟩
  rw [h] at hbusy
  cases hbusy

theorem State.call_next {a : Action} {k : Key} {obs : List Obs} {result : Except Error Db} (hb : s.Bounded)
    (h : s.call k obs result = some s')
    (hspec : ∀ db, result = .ok db → Move s.clock (s.db.row k) (db.row k) ∧
      (∀ k', k' ≠ k → db.row k' = s.db.row k') ∧
      ((obs = [] ∧ ∀ r token, db.row k = some r → r.leaseToken = some token →
          ∃ r0, s.db.row k = some r0 ∧ r0.leaseToken = some token) ∨
        ∃ token, obs = [.claimed k token] ∧ s.drawn token = false ∧ ∃ r, db.row k = some r ∧
        r.holds token = true)) :
    Next s a s' := by
  unfold State.call at h
  split at h
  · obtain rfl := Option.some.inj h
    exact .idle a
  · rename_i db
    split_ifs at h with hwait
    obtain rfl := Option.some.inj h
    obtain ⟨hmove, hothers, hobs⟩ := hspec db rfl
    refine .call ⟨hmove, hothers, ?_, hobs⟩
    by_cases hsame : db.row k = s.db.row k
    · exact .inl hsame
    · have hbusy : s.busy none k = false := by simpa [hsame] using hwait
      exact .inr fun ⟨t, ws, hws, hk⟩ => State.not_locked hb hbusy t ws (by simp) hws hk

/-- A token call moves the row that holds the token. -/
theorem call_of_token {k : Key} {token : Uuid} {db db' : Db} {f : Row → Row} {now : Int}
    (h : ∃ r, db.row k = some r ∧ r.holds token = true ∧ 
      ∀ k', db'.row k' = if k' = k then some (f r) else db.row k')
    (hmove : ∀ r, r.holds token = true → Move now (some r) (some (f r)))
    (htoken : ∀ r, (f r).leaseToken = r.leaseToken ∨ (f r).leaseToken = none) :
    Move now (db.row k) (db'.row k) ∧ (∀ k', k' ≠ k → db'.row k' = db.row k') ∧
      ∀ r token, db'.row k = some r → r.leaseToken = some token →
      ∃ r0, db.row k = some r0 ∧ r0.leaseToken = some token := by
  obtain ⟨r, hr, hholds, hrows⟩ := h
  refine ⟨?_, fun k' hk' => by rw [hrows, if_neg hk'], fun r' token' hr' ht => ⟨r, hr, ?_⟩⟩
  · rw [hrows, if_pos rfl, hr]
    exact hmove r hholds
  · rw [hrows, if_pos rfl, Option.some.injEq] at hr'
    rw [← hr'] at ht
    rcases htoken r with hsame | hnone
    · rw [← hsame, ht]
    · rw [hnone] at ht
      cases ht

theorem next_of_step {a : Action} (hb : s.Bounded) (h : step s a = some s') : Next s a s' := by
  cases a with
  | tick d =>
    obtain rfl := Option.some.inj h
    exact .tick d
  | claim req token =>
    simp only [step] at h
    split_ifs at h with hdrawn
    split at h
    · obtain rfl := Option.some.inj h
      exact .idle _
    rename_i db result hclaim
    refine State.call_next hb h fun db' hdb' => ?_
    obtain rfl := Except.ok.inj hdb'
    obtain ⟨r, hr, ⟨hclaimable, rfl, hrows⟩ | ⟨-, -, rfl, rfl⟩⟩ := Db.claim_ok hclaim
    · refine ⟨?_, fun k' hk' => by rw [hrows, if_neg hk'], .inr ⟨token, if_pos rfl, by simpa using hdrawn,
        r.lease s.clock req token, ?_, Row.holds_iff.mpr ⟨rfl, rfl⟩⟩⟩
      · rw [hrows, if_pos rfl]
        rcases hr with hr | ⟨hr, rfl⟩
        · rw [hr]
          exact .claimed req token hclaimable
        · rw [hr]
          exact .created req token
      · rw [hrows, if_pos rfl]
    · refine ⟨.stay _, fun _ _ => rfl, .inl ⟨if_neg (Status.disposition_ne_claimed _),
        fun r token hr ht => ⟨r, hr, ht⟩⟩⟩
  | renew k token lease =>
    refine State.call_next hb h fun db hdb => ?_
    obtain ⟨hmove, hothers, htoken⟩ := call_of_token (Db.renew_ok hdb) (fun r hr => .renewed lease hr)
      (fun _ => .inl rfl)
    exact ⟨hmove, hothers, .inl ⟨rfl, htoken⟩⟩
  | markRetry k token delay lastError =>
    refine State.call_next hb h fun db hdb => ?_
    obtain ⟨hmove, hothers, htoken⟩ :=
      call_of_token (Db.markRetry_ok hdb) (fun r hr => .retried delay lastError hr) (fun _ => .inr rfl)
    exact ⟨hmove, hothers, .inl ⟨rfl, htoken⟩⟩
  | markDead k token lastError =>
    refine State.call_next hb h fun db hdb => ?_
    obtain ⟨hmove, hothers, htoken⟩ :=
      call_of_token (Db.markDead_ok hdb) (fun r hr => .killed lastError hr) (fun _ => .inr rfl)
    exact ⟨hmove, hothers, .inl ⟨rfl, htoken⟩⟩
  | retryDead request auditID =>
    refine State.call_next hb h fun db hdb => ?_
    obtain ⟨r, hr, hdead, hrows⟩ := Db.retryDead_ok hdb
    refine ⟨?_, fun k' hk' => by rw [hrows, if_neg hk'], .inl ⟨rfl, fun r' token hr' ht => ?_⟩⟩
    · rw [hrows, if_pos rfl, hr]
      exact .reopened hdead
    · rw [hrows, if_pos rfl, Option.some.injEq] at hr'
      rw [← hr'] at ht
      cases ht
  | begin managed =>
    obtain rfl := Option.some.inj h
    exact .begin managed
  | markProcessed t =>
    simp only [step] at h
    split at h
    · cases h
    rename_i tx htx
    split at h
    · cases h
    rename_i k token hmanaged
    by_cases hcalls : tx.calls.isEmpty = true
    swap
    · rw [if_neg hcalls] at h
      cases h
    rw [if_pos hcalls] at h
    split at h
    · obtain rfl := Option.some.inj h
      exact .idle _
    rename_i r hmark
    split_ifs at h with hbusy
    obtain rfl := Option.some.inj h
    obtain ⟨x, hview, hholds, rfl⟩ := markProcessed_ok hmark
    refine .markProcessed htx hmanaged (List.isEmpty_iff.mp hcalls) hview hholds ?_
    rintro ⟨t', ws, hne, hws, hk⟩
    exact State.not_locked hb (by simpa using hbusy) t' ws (by simpa using hne) hws hk
  | process t consumer eventID strictDuplicate stale =>
    simp only [step] at h
    split at h
    · cases h
    rename_i tx htx
    split_ifs at h
    split at h
    · cases h
    · obtain rfl := Option.some.inj h
      exact .idle _
    rename_i tx' hp
    obtain rfl := Option.some.inj h
    refine .process htx ?_ hp
    rintro k hbusy ⟨t', ws, hne, hws, hk⟩
    exact State.not_locked hb hbusy t' ws (by simpa using hne) hws hk
  | «return» t ok =>
    simp only [step] at h
    split at h
    · cases h
    rename_i tx htx
    obtain ⟨⟨tx', result⟩, hr, rfl⟩ := Option.map_eq_some_iff.mp h
    exact .return htx hr
  | commit t =>
    simp only [step] at h
    split at h
    · cases h
    rename_i tx htx
    split_ifs at h with hready
    obtain ⟨db, hdb, rfl⟩ := Option.map_eq_some_iff.mp h
    obtain ⟨hcalls, hmarked⟩ := Bool.and_eq_true_iff.mp hready
    refine .commit htx (List.isEmpty_iff.mp hcalls) (fun hm => ?_) (Db.row_install hdb)
    rw [Option.isNone_eq_false_iff.mpr hm, Bool.false_or] at hmarked
    exact hmarked
  | rollback t =>
    obtain rfl := Option.some.inj h
    exact .rollback t

end Inversion

end Emitlane.Inbox
