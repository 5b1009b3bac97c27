import Emitlane.Inbox.AtMostOnce

/-!
# Inbox.Effect — what each call does to the rows and to the audit log

`Move` is the lifecycle of a row whatever moved it; `Effect` says in addition which call it was: a claim leases a
claimable row under a new token, a token call rewrites the row that holds the token, RetryDead opens a dead row and
leaves one audit record, a commit makes rows processed.
-/

namespace Emitlane.Inbox

/-- The calls that ask for the lease token, and what they do to the row. -/
def Action.tokenCall (now : Int) : Action → Option (Key × Uuid × (Row → Row))
  | .renew k token lease => some (k, token, Row.renewed now lease)
  | .markRetry k token delay lastError => some (k, token, Row.retried now delay lastError)
  | .markDead k token lastError => some (k, token, Row.killed now lastError)
  | _ => none

inductive Effect (s : State) : Action → State → Prop
  | none {a : Action} {s' : State} (hrows : ∀ k, s'.db.row k = s.db.row k) (haudit : s'.db.audit = s.db.audit)
      (hhist : ∀ token, s.drawn token = true → s'.drawn token = true) : Effect s a s'
  | claim {req : ClaimRequest} {token : Uuid} {r : Row} {s' : State} (hvalid : validateClaim req = .ok ())
      (hrow : s.db.row req.key = some r ∨ (s.db.row req.key = .none ∧ r = pendingRow s.clock req))
      (hclaimable : r.claimable s.clock = true) (hnew : s.drawn token = false)
      (hrows : ∀ k, s'.db.row k = if k = req.key then some (r.lease s.clock req token) else s.db.row k)
      (haudit : s'.db.audit = s.db.audit) (hhist : s'.hist = .claimed req.key token :: s.hist) :
      Effect s (.claim req token) s'
  | token {a : Action} {k : Key} {token : Uuid} {f : Row → Row} {r : Row} {s' : State}
      (hcall : a.tokenCall s.clock = some (k, token, f)) (hrow : s.db.row k = some r) (hholds : r.holds token = true)
      (hrows : ∀ k', s'.db.row k' = if k' = k then some (f r) else s.db.row k')
      (haudit : s'.db.audit = s.db.audit) (hhist : s'.hist = s.hist) : Effect s a s'
  | retryDead {request : RetryRequest} {auditID : Uuid} {r : Row} {audit : AuditRow} {s' : State}
      (hrow : s.db.row (trimSpace request.consumer, request.eventID) = some r) (hdead : r.status = .dead)
      (hrows : ∀ k, s'.db.row k =
        if k = (trimSpace request.consumer, request.eventID) then some (r.reopened s.clock) else s.db.row k)
      (haudit : s'.db.audit.rows = s.db.audit.rows ++ [audit]) (haction : audit.action = "inbox.retry")
      (htarget : audit.targetEventID = some request.eventID) (hhist : s'.hist = s.hist) :
      Effect s (.retryDead request auditID) s'
  | commit {t : Nat} {tx : Tx} {s' : State} (htx : s.txs t = some tx)
      (hrows : ∀ k, s'.db.row k = s.db.row k ∨
        ∃ w ∈ tx.work.writes, Allowed tx.managed w ∧ s'.db.row k = some w.new ∧ s.db.row k = w.old)
      (haudit : s'.db.audit = s.db.audit) (hhist : ∀ token, s.drawn token = true → s'.drawn token = true) :
      Effect s (.commit t) s'

/-! ## The audit log -/

section Audit

variable {db db' : Db} {now : Int} {k : Key} {token : Uuid}

theorem Db.insertIgnore_audit {r : Row} (h : db.insertIgnore r = some db') : db'.audit = db.audit := by
  unfold Db.insertIgnore at h
  split_ifs at h
  · obtain rfl := Option.some.inj h
    rfl
  · obtain ⟨t, -, rfl⟩ := Option.map_eq_some_iff.mp h
    rfl

theorem Db.claim_audit {req : ClaimRequest} {result : ClaimResult} (h : db.claim now req token = .ok (db', result)) :
    db'.audit = db.audit := by
  unfold Db.claim at h
  split at h
  · cases h
  split at h
  · cases h
  rename_i db1 hinsert
  rw [← Db.insertIgnore_audit hinsert]
  split_ifs at h
  split at h
  · cases h
  split at h
  · cases h
  split_ifs at h <;> cases h <;> rfl

theorem Db.updateLease_audit {what : String} {f : Row → Row} (h : db.updateLease what k token f = .ok db') :
    db'.audit = db.audit := by
  unfold Db.updateLease at h
  split at h
  · cases h
  · split_ifs at h
    cases h
    rfl

theorem Db.install_audit : ∀ {ws : List (Txn.Write Row)} {db' : Db}, db.install ws = some db' → db'.audit = db.audit
  | [], _, h => by
    obtain rfl := Option.some.inj h
    rfl
  | _ :: ws, _, h => by
    obtain ⟨db1, h1, h⟩ := Option.bind_eq_some_iff.mp h
    obtain ⟨t, -, rfl⟩ := Option.map_eq_some_iff.mp h
    have hrest : db1.audit = db.audit := Db.install_audit h1
    exact hrest

theorem Db.retryDead_audit {request : RetryRequest} {auditID : Uuid} (h : db.retryDead now request auditID = .ok db') :
    db'.audit.rows = db.audit.rows ++ [request.trim.auditRow now auditID] := by
  unfold Db.retryDead at h
  dsimp only at h
  split at h
  · cases h
  split at h
  · cases h
  split_ifs at h
  split at h
  · cases h
  split at h
  · cases h
  · rename_i audit haudit
    cases h
    exact Rel.Table.write_rows haudit

end Audit

theorem Db.attempts_nonneg {db : Db} {k : Key} {r : Row} (h : db.row k = some r) : 0 ≤ r.attempts := by
  have hcheck := db.inbox.ok.2.1 r (Db.row_eq_some.mp h).1
  simp only [Row.check, Bool.and_eq_true, decide_eq_true_eq] at hcheck
  tauto

theorem Db.claim_validates {db db' : Db} {now : Int} {req : ClaimRequest} {token : Uuid} {result : ClaimResult}
    (h : db.claim now req token = .ok (db', result)) : validateClaim req = .ok () := by
  unfold Db.claim at h
  split at h
  · cases h
  · assumption

/-! ## The effect of a step -/

section Inversion

variable {s s' : State}

theorem State.call_some {k : Key} {obs : List Obs} {result : Except Error Db} (h : s.call k obs result = some s') :
    (s' = s ∧ ∃ e, result = .error e) ∨ ∃ db,
    result = .ok db ∧ s' = { s with db := db, hist := obs ++ s.hist } := by
  unfold State.call at h
  split at h
  · exact .inl ⟨(Option.some.inj h).symm, _, rfl⟩
  · rename_i db
    split_ifs at h
    exact .inr ⟨db, rfl, (Option.some.inj h).symm⟩

theorem State.drawn_cons {s s' : State} {o : Obs} (h : s'.hist = o :: s.hist) {token : Uuid}
    (hd : s.drawn token = true) : s'.drawn token = true := by
  unfold State.drawn at hd ⊢
  rw [h, List.any_cons, hd, Bool.or_true]

theorem Effect.idle (a : Action) (s : State) : Effect s a s := .none (fun _ => rfl) rfl fun _ h => h

/-- A step that leaves the tables and the history alone. -/
theorem Effect.of_db {a : Action} (hdb : s'.db = s.db) (hhist : s'.hist = s.hist) : Effect s a s' := by
  refine .none (fun k => by rw [hdb]) (by rw [hdb]) fun token hd => ?_
  unfold State.drawn at hd ⊢
  rwa [hhist]

/-- A token call that succeeded. -/
theorem Effect.of_token {a : Action} {k : Key} {token : Uuid} {f : Row → Row} {result : Except Error Db}
    (hcall : a.tokenCall s.clock = some (k, token, f)) (h : s.call k [] result = some s')
    (hok : ∀ db, result = .ok db → (∃ r, s.db.row k = some r ∧ r.holds token = true ∧
      ∀ k', db.row k' = if k' = k then some (f r) else s.db.row k') ∧ db.audit = s.db.audit) : Effect s a s' := by
  rcases State.call_some h with ⟨rfl, -⟩ | ⟨db, hdb, rfl⟩
  · exact .idle a s'
  · obtain ⟨⟨r, hr, hholds, hrows⟩, haudit⟩ := hok db hdb
    exact .token hcall hr hholds hrows haudit rfl

theorem effect_of_step {a : Action} (hi : Inv s) (h : step s a = some s') : Effect s a s' := by
  cases a with
  | tick d =>
    obtain rfl := Option.some.inj h
    exact .of_db rfl rfl
  | claim req token =>
    simp only [step] at h
    split_ifs at h with hdrawn
    split at h
    · obtain rfl := Option.some.inj h
      exact .idle _ _
    rename_i db result hclaim
    rcases State.call_some h with ⟨rfl, -⟩ | ⟨db', hdb', rfl⟩
    · exact .idle _ _
    obtain rfl := Except.ok.inj hdb'
    obtain ⟨r, hr, ⟨hclaimable, rfl, hrows⟩ | ⟨-, -, rfl, rfl⟩⟩ := Db.claim_ok hclaim
    · exact .claim (Db.claim_validates hclaim) hr hclaimable (by simpa using hdrawn) hrows (Db.claim_audit hclaim) rfl
    · exact .of_db rfl (by rw [if_neg (Status.disposition_ne_claimed _)]; rfl)
  | renew k token lease =>
    refine .of_token rfl h fun db hdb => ⟨Db.renew_ok hdb, ?_⟩
    unfold Db.renew at hdb
    split_ifs at hdb
    exact Db.updateLease_audit hdb
  | markRetry k token delay lastError =>
    refine .of_token rfl h fun db hdb => ⟨Db.markRetry_ok hdb, ?_⟩
    unfold Db.markRetry at hdb
    split_ifs at hdb
    exact Db.updateLease_audit hdb
  | markDead k token lastError => exact .of_token rfl h fun db hdb => ⟨Db.markDead_ok hdb, Db.updateLease_audit hdb⟩
  | retryDead request auditID =>
    rcases State.call_some h with ⟨rfl, -⟩ | ⟨db, hdb, rfl⟩
    · exact .idle _ _
    obtain ⟨r, hr, hdead, hrows⟩ := Db.retryDead_ok hdb
    exact .retryDead hr hdead hrows (Db.retryDead_audit hdb) rfl rfl rfl
  | begin managed =>
    obtain rfl := Option.some.inj h
    exact .of_db rfl rfl
  -- these three write to a transaction only
  | markProcessed t =>
    simp only [step] at h
    split at h
    · cases h
    split at h
    · cases h
    split_ifs at h
    all_goals
      split at h
      · obtain rfl := Option.some.inj h
        exact .idle _ _
      · cases h <;> exact .of_db rfl rfl
  | process t consumer eventID strictDuplicate stale =>
    simp only [step] at h
    split at h
    · cases h
    split_ifs at h
    split at h
    · cases h
    · obtain rfl := Option.some.inj h
      exact .idle _ _
    · obtain rfl := Option.some.inj h
      exact .of_db rfl rfl
  | «return» t ok =>
    simp only [step] at h
    split at h
    · cases h
    obtain ⟨x, -, rfl⟩ := Option.map_eq_some_iff.mp h
    exact .of_db rfl rfl
  | commit t =>
    simp only [step] at h
    split at h
    · cases h
    rename_i tx htx
    split_ifs at h
    obtain ⟨db, hdb, rfl⟩ := Option.map_eq_some_iff.mp h
    refine .commit htx (fun k => ?_) (Db.install_audit hdb) fun token hd => State.drawn_cons rfl hd
    rw [Db.row_install hdb]
    by_cases hw : Txn.Writes (fun r : Row => r.key) tx.work.writes k
    · obtain ⟨w, hw, hk, hinstall⟩ := Txn.install_of_writes s.db.row hw
      refine .inr ⟨w, hw, (hi.txs htx).work_ok.allowed w hw, hinstall, ?_⟩
      rw [← hk]
      exact hi.held.current (State.writes_of_tx htx) w hw
    · exact .inl (Txn.install_of_not_writes hw)
  | rollback t =>
    obtain rfl := Option.some.inj h
    exact .of_db rfl rfl

end Inversion

/-- Only MarkDead makes a row dead. -/
theorem Effect.dead {s s' : State} {a : Action} (h : Effect s a s') {k : Key} {r : Row} (hr : s'.db.row k = some r)
    (hdead : r.status = .dead) (hold : ∀ r0, s.db.row k = some r0 → r0.status ≠ .dead) :
    ∃ token lastError, a = .markDead k token lastError := by
  cases h with
  | none hrows => exact absurd hdead (hold r (by rw [← hrows, hr]))
  | claim _ _ _ _ hrows =>
    rw [hrows] at hr
    split_ifs at hr
    · obtain rfl := Option.some.inj hr
      cases hdead
    · exact absurd hdead (hold r hr)
  | @token _ k' token f r0 _ hcall hrow hholds hrows =>
    rw [hrows] at hr
    split_ifs at hr with hk
    · subst hk
      obtain rfl := Option.some.inj hr
      have hstatus := (Row.holds_iff.mp hholds).1
      cases a with
      | renew k1 token1 lease =>
        cases hcall
        exact absurd hdead (by simp [Row.renewed, hstatus])
      | markRetry k1 token1 delay lastError =>
        cases hcall
        cases hdead
      | markDead k1 token1 lastError =>
        cases hcall
        exact ⟨_, _, rfl⟩
      | _ => cases hcall
    · exact absurd hdead (hold r hr)
  | retryDead _ _ hrows =>
    rw [hrows] at hr
    split_ifs at hr
    · obtain rfl := Option.some.inj hr
      cases hdead
    · exact absurd hdead (hold r hr)
  | commit _ hrows =>
    rcases hrows k with hsame | ⟨w, -, hallowed, hnew, -⟩
    · exact absurd hdead (hold r (by rw [← hsame, hr]))
    · rw [hr] at hnew
      obtain rfl := Option.some.inj hnew
      rw [hallowed.status.1] at hdead
      cases hdead

theorem Effect.markDead {s s' : State} {k : Key} {token : Uuid} {lastError : Bytes}
    (h : Effect s (.markDead k token lastError) s') :
    s'.db.row k = s.db.row k ∨ ∃ r, s'.db.row k = some r ∧ r.status = .dead := by
  cases h with
  | none hrows => exact .inl (hrows k)
  | token hcall _ _ hrows =>
    cases hcall
    exact .inr ⟨_, by rw [hrows, if_pos rfl], rfl⟩

/-- MarkDead of the holder makes the row dead. -/
theorem markDead_of_holds {s s' : State} {k : Key} {token : Uuid} {lastError : Bytes}
    (h : step s (.markDead k token lastError) = some s') {r : Row} (hr : s.db.row k = some r)
    (hholds : r.holds token = true) : ∃ r', s'.db.row k = some r' ∧ r'.status = .dead := by
  obtain ⟨db, hdb⟩ : ∃ db, s.db.markDead s.clock k token lastError = .ok db := Db.markDead_of_holds hr hholds
  rcases State.call_some h with ⟨-, e, he⟩ | ⟨db', hdb', rfl⟩
  · rw [hdb] at he
    cases he
  · obtain ⟨r0, -, -, hrows⟩ := Db.markDead_ok hdb'
    exact ⟨r0.killed s.clock lastError, by rw [hrows, if_pos rfl], rfl⟩

/-! ## Tokens -/

/-- An inflight row has a token. -/
theorem Db.holds_of_inflight {db : Db} {k : Key} {r : Row} (h : db.row k = some r) (hstatus : r.status = .inflight) :
    ∃ token, r.holds token = true := by
  have hcheck := db.inbox.ok.2.1 r (Db.row_eq_some.mp h).1
  simp only [Row.check, Row.leaseStateCheck, hstatus, Bool.and_eq_true, ne_eq, not_true_eq_false, decide_false,
    Bool.false_and, Bool.or_false] at hcheck
  obtain ⟨⟨⟨-, ⟨-, htoken⟩, -⟩, -⟩, -⟩ := hcheck
  obtain ⟨token, htoken⟩ := Option.isSome_iff_exists.mp htoken
  exact ⟨token, Row.holds_iff.mpr ⟨hstatus, htoken⟩⟩

theorem drawn_of_newestClaim {k : Key} {token : Uuid} : ∀ {hist : List Obs}, newestClaim k hist = some token →
    ∃ k', Obs.claimed k' token ∈ hist
  | .claimed k' token' :: hist, h => by
    unfold newestClaim at h
    split_ifs at h
    · exact ⟨k', Option.some.inj h ▸ List.mem_cons_self⟩
    · obtain ⟨k', hmem⟩ := drawn_of_newestClaim h
      exact ⟨k', List.mem_cons_of_mem _ hmem⟩
  | .committed _ _ :: hist, h => by
    have h : newestClaim k hist = some token := h
    obtain ⟨k', hmem⟩ := drawn_of_newestClaim h
    exact ⟨k', List.mem_cons_of_mem _ hmem⟩

/-- The tokens of the rows were drawn. -/
theorem Inv.drawn {s : State} (hi : Inv s) {k : Key} {r : Row} {token : Uuid} (hr : s.db.row k = some r)
    (hholds : r.holds token = true) : s.drawn token = true := by
  obtain ⟨k', hmem⟩ := drawn_of_newestClaim (hi.newest hr (Row.holds_iff.mp hholds).2)
  exact List.any_eq_true.mpr ⟨_, hmem, decide_eq_true rfl⟩

/-- A row gets a new token by a claim. -/
theorem Effect.new_token {s s' : State} {a : Action} (h : Effect s a s') (hi : Inv s) {k : Key} {r' : Row}
    {token : Uuid} (hr' : s'.db.row k = some r') (hholds : r'.holds token = true) (hnew : s.drawn token = false) :
    ∃ req, a = .claim req token ∧ k = req.key := by
  have hsame : s.db.row k ≠ some r' := fun hr => by
    rw [hi.drawn hr hholds] at hnew
    cases hnew
  cases h with
  | none hrows => exact absurd ((hrows k).symm.trans hr') hsame
  | @claim req token' r0 _ _ _ _ _ hrows =>
    rw [hrows] at hr'
    split_ifs at hr' with hk
    · obtain rfl := Option.some.inj hr'
      obtain rfl : token' = token := Option.some.inj (Row.holds_iff.mp hholds).2
      exact ⟨req, rfl, hk⟩
    · exact absurd hr' hsame
  | @token _ k' token' f r0 _ hcall hrow hholds0 hrows =>
    rw [hrows] at hr'
    split_ifs at hr' with hk
    · obtain rfl := Option.some.inj hr'
      cases a with
      | renew k1 token1 lease =>
        cases hcall
        have hold : r0.holds token = true :=
          Row.holds_iff.mpr ⟨(Row.holds_iff.mp hholds0).1, (Row.holds_iff.mp hholds).2⟩
        rw [hi.drawn hrow hold] at hnew
        cases hnew
      | markRetry | markDead => cases hcall; cases hholds
      | _ => cases hcall
    · exact absurd hr' hsame
  | retryDead _ _ hrows =>
    rw [hrows] at hr'
    split_ifs at hr'
    · obtain rfl := Option.some.inj hr'
      cases hholds
    · exact absurd hr' hsame
  | commit _ hrows =>
    rcases hrows k with hrow | ⟨w, -, hallowed, hrow, -⟩
    · exact absurd (hrow.symm.trans hr') hsame
    · obtain rfl := Option.some.inj (hrow.symm.trans hr')
      exact absurd hallowed.status.1 (Row.holds_status hholds)

end Emitlane.Inbox
