import Emitlane.Consumer.Attempts

/-!
# Consumer.LastAttempt — what becomes of an event whose budget is spent

The budget is compared in transitionFailure only.  A worker that crashes in an attempt does not get there: the row stays
inflight, and when the lease has ended it is claimed and run again, whatever its attempts are
(`attempts_exceed_budget`).

So two things are asked of a run.  No claim takes over a row whose budget is spent (`TakesOverWithin`), and an attempt
that spends the budget goes on to its end: the worker does not crash in it, and its calls to the database do not fail
(`LastAttemptEnds`).  Then a row whose budget is spent is processed, or dead, or in the hands of a worker that is at
this attempt (`Owned.attended`), whose failure makes it dead (`attempts_bounded`).
-/

namespace Emitlane.Consumer

open Inbox (Key)

variable {ω : Type}

/-! ## The condition -/

section Condition

variable (d : Deployment ω) (maxAttempts : Int) (s : State ω)

/-- The worker is at an attempt that spends the budget of its event, and the row is still its own. -/
def AtLastAttempt (w : ω) : Prop :=
  ∃ ev r, (s.party w).pc.event = some ev ∧ s.world.inbox.db.row (d.key ev.eventID) = some r ∧
    r.holds ev.leaseToken = true ∧ maxAttempts + retries s.world.inbox ev.eventID ≤ ev.attempts

/-- The number a claim of the event would give to its attempt. -/
def nextAttempt (id : Uuid) : Int := (s.world.inbox.db.row (d.key id)).elim 0 (·.attempts) + 1

/-- A worker does not crash in an attempt that spends the budget, and its MarkProcessed, Commit and MarkDead do not
fail; nor is the answer lost of the claim that begins this attempt. -/
def LastAttemptEnds : Action ω → Prop
  | .party w .crash => ¬ AtLastAttempt d maxAttempts s w
  | .party w (.markProcessed fails) => fails = true → ¬ AtLastAttempt d maxAttempts s w
  | .party w (.commitTx reply _) => reply = .failed → ¬ AtLastAttempt d maxAttempts s w
  | .party w (.transitionFailure _ reply _) => reply = .failed → ¬ AtLastAttempt d maxAttempts s w
  | .party w (.claim _ reply _) => reply = .lost → ∀ record id, (s.party w).pc = .claiming record id →
      nextAttempt d s id < maxAttempts + retries s.world.inbox id
  | _ => True

/-- What is asked of each step. -/
structure KeepsBudget (a : Action ω) : Prop where
  takesOver : TakesOverWithin d maxAttempts s a
  ends : LastAttemptEnds d maxAttempts s a

end Condition

/-! ## The transactions of the workers -/

/-- The transaction in which MarkProcessed is still to come. -/
def Pc.unmarked : Pc → Option Nat
  | .handling _ _ t _ | .marking _ _ t => some t
  | _ => none

/-- The claim whose lease the worker knows to be lost. -/
def Pc.lostLease : Pc → Option Inbox.Event
  | .handling _ ev _ (some .leaseLost) => some ev
  | _ => none

theorem Pc.tx_of_unmarked {pc : Pc} {t : Nat} (h : pc.unmarked = some t) : ∃ ev, pc.tx = some (ev, t) := by
  cases pc with
  | handling _ ev _ _ | marking _ ev _ =>
    obtain rfl := Option.some.inj h
    exact ⟨ev, rfl⟩
  | _ => cases h

theorem Pc.event_of_lostLease {pc : Pc} {ev : Inbox.Event} (h : pc.lostLease = some ev) : pc.event = some ev := by
  unfold Pc.lostLease at h
  split at h
  · exact h
  · cases h

/-- What the workers have of the Inbox: transactions of their own, and the rows whose budget is spent. -/
structure Owned (d : Deployment ω) (maxAttempts : Int) (s : State ω) : Prop where
  tx : ∀ w ev t, (s.party w).pc.tx = some (ev, t) → HasTx d s.world.toShared ev t
  apart : ∀ w w' ev ev' t, (s.party w).pc.tx = some (ev, t) → (s.party w').pc.tx = some (ev', t) → w = w'
  unmarked : ∀ w t tx, (s.party w).pc.unmarked = some t → s.world.inbox.txs t = some tx → tx.work.writes = []
  lost : ∀ w ev r, (s.party w).pc.lostLease = some ev → s.world.inbox.db.row (d.key ev.eventID) = some r →
    r.holds ev.leaseToken = false
  /-- A row that is inflight with a spent budget has the token of a worker that is at this attempt. -/
  attended : ∀ id r, s.world.inbox.db.row (d.key id) = some r → r.status = .inflight →
    maxAttempts + retries s.world.inbox id ≤ r.attempts →
    ∃ w ev, (s.party w).pc.event = some ev ∧ ev.eventID = id ∧ r.holds ev.leaseToken = true

section Steps

variable {d : Deployment ω} {M : Int} {s : State ω}

theorem Owned.init (clock : Int) (logs : TopicPartition → List Entry) (start : TopicPartition → Nat) :
    Owned d M (State.init clock logs start) where
  tx _ _ _ h := nomatch h
  apart _ _ _ _ _ h := nomatch h
  unmarked _ _ _ h := nomatch h
  lost _ _ _ h := nomatch h
  attended _ _ h := nomatch h

theorem HasTx.next {v v' : Shared} {ev : Inbox.Event} {t : Nat} (h : HasTx d v ev t) {b : Inbox.Action}
    (hs : Inbox.Next v.inbox b v'.inbox) : HasTx d v' ev t := by
  refine ⟨h.1.trans_le hs.next_le, fun tx' htx' => ?_⟩
  obtain ⟨tx, htx, hmanaged, -⟩ := hs.tx h.1 htx'
  rw [hmanaged]
  exact h.2 tx htx

theorem HasTx.begun {i : Inbox.State} {v' : Shared} {ev : Inbox.Event}
    (hs : Inbox.step i (.begin (some (d.key ev.eventID, ev.leaseToken))) = some v'.inbox) : HasTx d v' ev i.next := by
  have hinbox := Option.some.inj hs
  unfold HasTx
  rw [← hinbox]
  refine ⟨Nat.lt_succ_self _, fun tx htx => ?_⟩
  rcases Runs.of_update htx with ⟨-, hnew⟩ | ⟨hne, -⟩
  · obtain rfl := Option.some.inj hnew
    rfl
  · exact absurd rfl hne

/-- A lease that is lost stays lost. -/
theorem Counts.not_holds {v v' : Inbox.State} (hcounts : Counts d M v v') {ev : Inbox.Event}
    (hdrawn : v.drawn ev.leaseToken = true)
    (h : ∀ r, v.db.row (d.key ev.eventID) = some r → r.holds ev.leaseToken = false) {r' : Inbox.Row}
    (hr' : v'.db.row (d.key ev.eventID) = some r') : r'.holds ev.leaseToken = false := by
  rcases hcounts.rows (d.key ev.eventID) with hsame | ⟨r1, hr1⟩
  · exact h r' (hsame ▸ hr')
  · obtain rfl : r1 = r' := Option.some.inj (hr1.row.symm.trans hr')
    by_contra hholds
    obtain ⟨r, hr, hold, -⟩ := hr1.token _ hdrawn (by simpa using hholds)
    rw [h r hr] at hold
    cases hold

/-- A row that is inflight with a spent budget after a step was so before it, under the same token and in the hands of a
worker, or its token is new. -/
theorem Owned.attended_before (h : Owned d M s) (hledger : Ledger d M s) {i : Inbox.State}
    (hcounts : Counts d M s.world.inbox i) {id : Uuid} {r' : Inbox.Row} (hr' : i.db.row (d.key id) = some r')
    (hstatus : r'.status = .inflight) (hspent : M + retries i id ≤ r'.attempts) :
    (∃ w ev r, (s.party w).pc.event = some ev ∧ ev.eventID = id ∧ s.world.inbox.db.row (d.key id) = some r ∧
      r.holds ev.leaseToken = true ∧ r'.holds ev.leaseToken = true ∧
      M + retries s.world.inbox id ≤ ev.attempts) ∨
    ∃ token, r'.holds token = true ∧ s.world.inbox.drawn token = false := by
  obtain ⟨token, htoken⟩ := Inbox.Db.holds_of_inflight hr' hstatus
  by_cases hdrawn : s.world.inbox.drawn token = true
  · obtain ⟨r, hr, hholds, hattempts⟩ : ∃ r, s.world.inbox.db.row (d.key id) = some r ∧
      r.holds token = true ∧
        r'.attempts = r.attempts := by
      rcases hcounts.rows (d.key id) with hsame | ⟨r1, hr1⟩
      · exact ⟨r', hsame ▸ hr', htoken, rfl⟩
      · obtain rfl : r1 = r' := Option.some.inj (hr1.row.symm.trans hr')
        exact hr1.token token hdrawn htoken
    have hmono := hcounts.retries id
    obtain ⟨w, ev, hev, rfl, hown⟩ := h.attended id r hr (Inbox.Row.holds_iff.mp hholds).1 (by omega)
    obtain rfl : ev.leaseToken = token :=
      Option.some.inj ((Inbox.Row.holds_iff.mp hown).2.symm.trans (Inbox.Row.holds_iff.mp hholds).2)
    have hcount := (hledger.hand w ev hev).2 r hr hholds
    exact .inl ⟨w, ev, r, hev, rfl, hr, hholds, htoken, by omega⟩
  · exact .inr ⟨token, htoken, by simpa using hdrawn⟩

variable {w : ω} {a : WorkerAction} {v' : World ω} {x' : Worker}

/-- The transaction of a worker after its step: the same, or a new one. -/
theorem Next.tx (hs : Next d w s.world (s.party w) a v' x') {ev : Inbox.Event} {t : Nat}
    (htx : x'.pc.tx = some (ev, t)) :
    (s.party w).pc.tx = some (ev, t) ∨ (t = s.world.inbox.next ∧
      Inbox.step s.world.inbox (.begin (some (d.key ev.eventID, ev.leaseToken))) = some v'.inbox) := by
  cases hs with
  | assigned | released | connected | polled => exact .inl htx
  | began hpc hstep =>
    obtain ⟨rfl, rfl⟩ := Prod.mk.inj (Option.some.inj htx)
    exact .inr ⟨rfl, hstep⟩
  | renewFailed hpc | renewed hpc | handled hpc | marked hpc =>
    rw [hpc]
    exact .inl htx
  | passed =>
    unfold startProcess at htx
    split at htx <;> cases htx
  | claimed =>
    unfold dispatch at htx
    split at htx <;> cases htx
  | _ => cases htx

/-- Only the MarkProcessed of its own worker writes in a transaction. -/
theorem Next.writes (hi : Inbox.Inv s.world.inbox) (hs : Next d w s.world (s.party w) a v' x') {t : Nat}
    {tx' : Inbox.Tx} (hlt : t < s.world.inbox.next)
    (hmarks : ∀ record ev, (s.party w).pc = .marking record ev t → x'.pc.unmarked = some t)
    (htx' : v'.inbox.txs t = some tx') : ∃ tx, s.world.inbox.txs t = some tx ∧
    tx'.work.writes = tx.work.writes := by
  have hstep : ∀ {b : Inbox.Action}, Inbox.step s.world.inbox b = some v'.inbox → b.isLegacy = false →
      b ≠ .markProcessed t → ∃ tx, s.world.inbox.txs t = some tx ∧ tx'.work.writes = tx.work.writes :=
    fun hb hlegacy hne => (Inbox.next_of_step hi.bounded hb).tx_writes hlegacy hne hlt htx'
  cases hs with
  | marked hpc hb =>
    refine hstep hb rfl fun heq => ?_
    cases heq
    cases hmarks _ _ hpc
  | aborted | handlerFailed => exact hstep (b := .rollback _) rfl rfl fun h => nomatch h
  | claimLost _ hb | claimed _ hb | began _ hb | renewed _ hb | commitLost _ hb | committed _ hb =>
    exact hstep hb rfl fun h => nomatch h
  | transitioned _ hb =>
    refine hstep hb ?_ ?_ <;> unfold transition <;> dsimp only <;> split_ifs
    · rfl
    · rfl
    · exact fun h => nomatch h
    · exact fun h => nomatch h
  | _ => exact ⟨tx', htx', rfl⟩

/-- The transaction in which MarkProcessed is to come: the same as before, or a new one. -/
theorem Next.unmarked (hs : Next d w s.world (s.party w) a v' x') {t : Nat} (ht : x'.pc.unmarked = some t) :
    (s.party w).pc.unmarked = some t ∨ ∀ tx, v'.inbox.txs t = some tx → tx.work.writes = [] := by
  cases hs with
  | assigned | released | connected | polled => exact .inl ht
  | began hpc hstep =>
    obtain rfl := Option.some.inj ht
    obtain rfl := Option.some.inj hstep
    refine .inr fun tx htx => ?_
    rcases Runs.of_update htx with ⟨-, hnew⟩ | ⟨hne, -⟩
    · obtain rfl := Option.some.inj hnew
      rfl
    · exact absurd rfl hne
  | renewFailed hpc | renewed hpc | handled hpc =>
    rw [hpc]
    exact .inl ht
  | passed =>
    unfold startProcess at ht
    split at ht <;> cases ht
  | claimed =>
    unfold dispatch at ht
    split at ht <;> cases ht
  | _ => cases ht

/-- A worker learns from Renew that its lease is lost. -/
theorem Next.lostLease (hs : Next d w s.world (s.party w) a v' x') (h : Owned d M s) {ev : Inbox.Event}
    (hev : x'.pc.lostLease = some ev) : (s.party w).pc.event = some ev ∧
      ∀ r, s.world.inbox.db.row (d.key ev.eventID) = some r → r.holds ev.leaseToken = false := by
  cases hs with
  | assigned | released | connected | polled => exact ⟨Pc.event_of_lostLease hev, fun r hr => h.lost w ev r hev hr⟩
  | @renewed reply deadline record event t inbox result hpc hstep hlost =>
    rcases result with _ | _ | deadline
    · cases hev
    · obtain rfl := Option.some.inj hev
      rw [hpc]
      exact ⟨rfl, hlost rfl⟩
    · cases hev
  | passed =>
    unfold startProcess at hev
    split at hev <;> cases hev
  | claimed =>
    unfold dispatch at hev
    split at hev <;> cases hev
  | _ => cases hev

/-- A worker at its last attempt has no reason to roll back. -/
theorem Owned.not_aborts (h : Owned d M s) (hC : LastAttemptEnds d M s (.party w a))
    (hlast : AtLastAttempt d M s w) (haborts : Aborts d s.world (s.party w).pc a) : False := by
  obtain ⟨ev, r, hev, hr, hholds, hspent⟩ := hlast
  generalize hpc : (s.party w).pc = pc at haborts
  cases haborts with
  | leaseLost record event t err ctxErr now =>
    rw [hpc] at hev
    obtain rfl := Option.some.inj hev
    rw [h.lost w event r (by rw [hpc]; rfl) hr] at hholds
    cases hholds
  | markFailed => exact hC rfl ⟨ev, r, hev, hr, hholds, hspent⟩
  | @markRefused record event t tx htx hrefused =>
    rw [hpc] at hev
    obtain rfl := Option.some.inj hev
    -- the transaction has written nothing, so it sees the row with its token
    have hview : tx.view s.world.inbox.db (d.key event.eventID) = some r := by
      unfold Inbox.Tx.view
      rw [h.unmarked w t tx (by rw [hpc]; rfl) htx]
      exact hr
    rw [hview] at hrefused
    exact hrefused _ (if_pos hholds)
  | commitFailed => exact hC rfl ⟨ev, r, hev, hr, hholds, hspent⟩

/-- A worker at its last attempt keeps it, or its step ends it: the row is processed or dead then. -/
theorem Next.keeps (hs : Next d w s.world (s.party w) a v' x') (hi : Inbox.Inv s.world.inbox) (h : Owned d M s)
    (hmax : ∀ w, (d.config w).maxAttempts = M) (hC : LastAttemptEnds d M s (.party w a)) {ev : Inbox.Event}
    {r r' : Inbox.Row} (hev : (s.party w).pc.event = some ev) (hr : s.world.inbox.db.row (d.key ev.eventID) = some r)
    (hholds : r.holds ev.leaseToken = true) (hspent : M + retries s.world.inbox ev.eventID ≤ ev.attempts)
    (hr' : v'.inbox.db.row (d.key ev.eventID) = some r') (hstatus : r'.status = .inflight) :
    x'.pc.event = some ev := by
  have hlast : AtLastAttempt d M s w := ⟨ev, r, hev, hr, hholds, hspent⟩
  have hcommit : ∀ {record : SourceRecord} {event : Inbox.Event} {t : Nat} {inbox : Inbox.State},
      (s.party w).pc = .committing record event t → Inbox.step s.world.inbox (.commit t) = some inbox →
      inbox.db.row (d.key ev.eventID) = some r' → False := by
    intro record event t inbox hpc hstep hrow
    have hsame : event = ev := by rw [hpc] at hev; exact Option.some.inj hev
    subst hsame
    obtain ⟨r1, hr1, hprocessed⟩ := (h.tx w event t (by rw [hpc]; rfl)).processed hi hstep
    obtain rfl : r' = r1 := Option.some.inj (hrow.symm.trans hr1)
    rw [hstatus] at hprocessed
    cases hprocessed
  cases hs with
  | assigned | released | connected | polled => exact hev
  | beginFailed hpc | began hpc | renewFailed hpc | renewed hpc | handlerFailed hpc | handled hpc | marked hpc =>
    rw [hpc] at hev
    exact hev
  | crash => exact absurd hlast hC
  | gaveUp _ hfailed =>
    obtain ⟨delay, now, rfl⟩ := hfailed ev hev
    exact absurd hlast (hC rfl)
  | aborted _ _ haborts => exact (h.not_aborts hC hlast haborts).elim
  | commitLost hpc hstep => exact (hcommit hpc hstep hr').elim
  | committed hpc hstep => exact (hcommit hpc hstep hr').elim
  | @transitioned delay reply now record event failure inbox resumeAt permanent reason hpc hstep hreply =>
    exfalso
    have hsame : event = ev := by rw [hpc] at hev; exact Option.some.inj hev
    subst hsame
    unfold transition at hstep
    rw [if_pos (.inr (by rw [hmax]; omega))] at hstep
    obtain ⟨r1, hr1, hdead⟩ := Inbox.markDead_of_holds hstep hr hholds
    obtain rfl : r' = r1 := Option.some.inj (hr'.symm.trans hr1)
    rw [hstatus] at hdead
    cases hdead
  | passed hpc | dropped hpc | claimLost hpc | claimed hpc | offsetLost hpc | offsetCommitted hpc | rewound hpc
  | resumed _ _ hpc | noRecord hpc =>
    rw [hpc] at hev
    cases hev

/-- The number of the attempt of a claim. -/
theorem attempts_of_claim {req : Inbox.ClaimRequest} {id : Uuid} {r : Inbox.Row} (hkey : req.key = d.key id)
    (hrow : s.world.inbox.db.row req.key = some r ∨
      (s.world.inbox.db.row req.key = none ∧ r = Inbox.pendingRow s.world.inbox.clock req)) (token : Uuid) :
    (r.lease s.world.inbox.clock req token).attempts = nextAttempt d s id := by
  unfold nextAttempt
  rcases hrow with hrow | ⟨hrow, rfl⟩
  · rw [← hkey, hrow]
    rfl
  · rw [← hkey, hrow]
    rfl

/-- A claim that spends the budget is in the hands of the worker that made it. -/
theorem Next.claims (hs : Next d w s.world (s.party w) a v' x') (hi : Inbox.Inv s.world.inbox)
    (hC : LastAttemptEnds d M s (.party w a)) {id token : Uuid} {r' : Inbox.Row}
    (hr' : v'.inbox.db.row (d.key id) = some r') (hholds : r'.holds token = true)
    (hnew : s.world.inbox.drawn token = false) (hspent : M + retries s.world.inbox id ≤ r'.attempts) :
    ∃ ev, x'.pc.event = some ev ∧ ev.eventID = id ∧ r'.holds ev.leaseToken = true := by
  have hrow : s.world.inbox.db.row (d.key id) ≠ some r' := fun hr => by
    rw [hi.drawn hr hholds] at hnew
    cases hnew
  rcases hs.inbox with hsame | ⟨b, hcall, hb⟩
  · exact absurd (hsame ▸ hr') hrow
  obtain ⟨req, hclaims, hkey⟩ := (Inbox.effect_of_step hi hb).new_token hi hr' hholds hnew
  obtain ⟨reply, now, record, eventID, rfl, hpc, rfl⟩ : ∃ reply now record eventID, a = .claim token reply now ∧
      (s.party w).pc = .claiming record eventID ∧ req = claimRequest d w record eventID := by
    cases hcall with
    | claim hpc =>
      cases hclaims
      exact ⟨_, _, _, _, rfl, hpc, rfl⟩
    | transition =>
      unfold transition at hclaims
      dsimp only at hclaims
      split_ifs at hclaims
    | _ => cases hclaims
  have hconsumer : (claimRequest d w record eventID).key = d.key eventID := congrArg (·, eventID) (d.one w)
  obtain rfl : id = eventID := Deployment.key_injective (hkey.trans hconsumer)
  cases hs with
  | polled | noRecord | gaveUp | aborted => exact absurd hr' hrow
  | @claimLost _ _ _ record' eventID' inbox resumeAt hpc' hstep hlost =>
    obtain ⟨rfl, rfl⟩ := Pc.claiming.inj (hpc.symm.trans hpc')
    exfalso
    rcases hlost with rfl | rfl
    · cases Inbox.effect_of_step hi hstep with
      | none hrows => exact hrow ((hrows _).symm.trans hr')
      | claim _ hold _ _ hrows =>
        have hr' : inbox.db.row (d.key id) = some r' := hr'
        rw [hrows, if_pos hkey] at hr'
        obtain rfl := Option.some.inj hr'
        have hlt := hC rfl record id hpc
        rw [attempts_of_claim hconsumer hold] at hspent
        omega
      | token hcall => cases hcall
    · exact hrow hr'
  | @claimed _ _ record' eventID' inbox db result hpc' hstep hclaim =>
    obtain ⟨rfl, rfl⟩ := Pc.claiming.inj (hpc.symm.trans hpc')
    by_cases hclaimed : result.disposition = .claimed
    · obtain ⟨r, -, -, hevent, hleased, -⟩ := claim_step hstep hclaim hclaimed
      have hr' : inbox.db.row (d.key id) = some r' := hr'
      rw [hkey, hleased] at hr'
      obtain rfl := Option.some.inj hr'
      refine ⟨result.event, by unfold dispatch; rw [hclaimed]; rfl, ?_, ?_⟩
      · rw [hevent]
        exact congrArg Prod.snd ((Inbox.Db.row_eq_some.mp hleased).2.trans hkey.symm)
      · rw [hevent]
        exact Inbox.Row.holds_iff.mpr ⟨rfl, rfl⟩
    · exfalso
      obtain ⟨r, -, ⟨-, rfl, -⟩ | ⟨-, -, rfl, -⟩⟩ := Inbox.Db.claim_ok hclaim
      · exact hclaimed rfl
      · simp only [Inbox.step, hclaim] at hstep
        split_ifs at hstep
        rcases Inbox.State.call_some hstep with ⟨rfl, -⟩ | ⟨db', hdb', rfl⟩
        · exact hrow hr'
        · obtain rfl := Except.ok.inj hdb'
          exact hrow hr'

variable [DecidableEq ω]

/-- **Every step of a worker keeps what the workers own.** -/
theorem Next.owned (hs : Next d w s.world (s.party w) a v' x') (hledger : Ledger d M s) (h : Owned d M s) (hM : 1 ≤ M)
    (hmax : ∀ w, (d.config w).maxAttempts = M) (hC : KeepsBudget d M s (.party w a)) :
    Owned d M ⟨v', Function.update s.party w x'⟩ := by
  have hi := hledger.budget.inbox
  have hcounts : Counts d M s.world.inbox v'.inbox := by
    rcases hs.inbox with hsame | ⟨b, hcall, hb⟩
    · rw [hsame]
      exact .refl _
    · exact hledger.budget.counts hM (hcall.obeys hledger hmax hC.takesOver) hb
  have hkeep : ∀ {ev : Inbox.Event} {t : Nat}, HasTx d s.world.toShared ev t → HasTx d v'.toShared ev t := by
    intro ev t htx
    rcases hs.inbox with hsame | ⟨b, -, hb⟩
    · exact ⟨hsame ▸ htx.1, fun tx hopen => htx.2 tx (hsame ▸ hopen)⟩
    · exact htx.next (Inbox.next_of_step hi.bounded hb)
  have hparty : ∀ w1, (Function.update s.party w x' w1 = x' ∧ w1 = w) ∨
      (Function.update s.party w x' w1 = s.party w1 ∧ w1 ≠ w) := by
    intro w1
    by_cases hw : w1 = w
    · exact .inl ⟨hw ▸ Function.update_self .., hw⟩
    · exact .inr ⟨Function.update_of_ne hw .., hw⟩
  refine ⟨fun w1 ev t htx => ?_, fun w1 w2 ev1 ev2 t htx1 htx2 => ?_, fun w1 t tx ht htx => ?_,
    fun w1 ev r hlost hr => ?_, fun id r hr hstatus hspent => ?_⟩
  · dsimp only at htx
    rcases hparty w1 with ⟨heq, rfl⟩ | ⟨heq, -⟩ <;> rw [heq] at htx
    · rcases hs.tx htx with hold | ⟨rfl, hstep⟩
      · exact hkeep (h.tx _ ev t hold)
      · exact HasTx.begun hstep
    · exact hkeep (h.tx w1 ev t htx)
  · dsimp only at htx1 htx2
    -- a new transaction has a number no other worker has
    have hfresh : ∀ {w2 : ω} {ev1 ev2 : Inbox.Event}, w2 ≠ w → x'.pc.tx = some (ev1, t) →
        (s.party w2).pc.tx = some (ev2, t) → False := by
      intro w2 ev1 ev2 hne htx1 htx2
      rcases hs.tx htx1 with hold | ⟨rfl, -⟩
      · exact hne (h.apart w2 w ev2 ev1 t htx2 hold)
      · exact absurd (h.tx w2 ev2 _ htx2).1 (lt_irrefl _)
    rcases hparty w1 with ⟨heq1, hw1⟩ | ⟨heq1, hw1⟩ <;>
      rcases hparty w2 with ⟨heq2, hw2⟩ | ⟨heq2, hw2⟩ <;>
      rw [heq1] at htx1 <;> rw [heq2] at htx2
    · exact hw1.trans hw2.symm
    · exact (hfresh hw2 htx1 htx2).elim
    · exact (hfresh hw1 htx2 htx1).elim
    · exact h.apart w1 w2 ev1 ev2 t htx1 htx2
  · dsimp only at ht htx
    have hold : ∀ {w1 : ω}, (s.party w1).pc.unmarked = some t →
        (∀ record ev, (s.party w).pc = .marking record ev t → x'.pc.unmarked = some t) → tx.work.writes = [] := by
      intro w1 ht hmarks
      obtain ⟨ev, hopen⟩ := Pc.tx_of_unmarked ht
      obtain ⟨tx0, htx0, hwrites⟩ := hs.writes hi (h.tx w1 ev t hopen).1 hmarks htx
      rw [hwrites]
      exact h.unmarked w1 t tx0 ht htx0
    rcases hparty w1 with ⟨heq, rfl⟩ | ⟨heq, hne⟩ <;> rw [heq] at ht
    · rcases hs.unmarked ht with hbefore | hnone
      · exact hold hbefore fun _ _ _ => ht
      · exact hnone tx htx
    · refine hold ht fun record ev hpc => absurd ?_ hne
      obtain ⟨ev', hopen⟩ := Pc.tx_of_unmarked ht
      exact h.apart w1 w ev' ev t hopen (by rw [hpc]; rfl)
  · dsimp only at hlost hr
    rcases hparty w1 with ⟨heq, rfl⟩ | ⟨heq, -⟩ <;> rw [heq] at hlost
    · obtain ⟨hevent, hnot⟩ := hs.lostLease h hlost
      exact hcounts.not_holds (hledger.hand _ ev hevent).1 hnot hr
    · exact hcounts.not_holds (hledger.hand w1 ev (Pc.event_of_lostLease hlost)).1
        (fun r hr => h.lost w1 ev r hlost hr) hr
  · dsimp only at hr hspent
    have hmono := hcounts.retries id
    rcases h.attended_before hledger hcounts hr hstatus hspent with
      ⟨w1, ev, r0, hev, rfl, hr0, hholds0, hholds, hlast⟩ | ⟨token, hholds, hnew⟩
    · refine ⟨w1, ev, ?_, rfl, hholds⟩
      dsimp only
      rcases hparty w1 with ⟨heq, rfl⟩ | ⟨heq, -⟩ <;> rw [heq]
      · exact hs.keeps hi h hmax hC.ends hev hr0 hholds0 hlast hr hstatus
      · exact hev
    · obtain ⟨ev, hev, hid, hown⟩ := hs.claims hi hC.ends hr hholds hnew (by omega)
      refine ⟨w, ev, ?_, hid, hown⟩
      dsimp only
      rw [Function.update_self]
      exact hev

omit [DecidableEq ω] in
theorem Owned.env_step (h : Owned d M s) (hledger : Ledger d M s) (hM : 1 ≤ M) {e : EnvAction}
    (hs : envStep s.world e = some v') : Owned d M ⟨v', s.party⟩ := by
  have hi := hledger.budget.inbox
  rcases envStep_inbox hs with hsame | ⟨b, hcall, hb⟩
  · refine ⟨fun w ev t htx => ?_, h.apart, fun w t tx ht htx => ?_, fun w ev r hlost hr => ?_,
      fun id r hr hst hsp => ?_⟩
    · exact ⟨hsame ▸ (h.tx w ev t htx).1, fun tx hopen => (h.tx w ev t htx).2 tx (hsame ▸ hopen)⟩
    · exact h.unmarked w t tx ht (hsame ▸ htx)
    · exact h.lost w ev r hlost (hsame ▸ hr)
    · exact h.attended id r (hsame ▸ hr) hst (hsame ▸ hsp)
  · have hobeys : Obeys d M s.world.inbox b := hcall.obeys _
    have hcounts := hledger.budget.counts hM hobeys hb
    have hnext := Inbox.next_of_step hi.bounded hb
    refine ⟨fun w ev t htx => (h.tx w ev t htx).next hnext, h.apart, fun w t tx ht htx => ?_,
      fun w ev r hlost hr => ?_, fun id r hr hstatus hspent => ?_⟩
    · obtain ⟨ev, hopen⟩ := Pc.tx_of_unmarked ht
      have hmark : b ≠ .markProcessed t := by cases hcall <;> exact fun h => nomatch h
      obtain ⟨tx0, htx0, hwrites⟩ := hnext.tx_writes hobeys.legacy hmark (h.tx w ev t hopen).1 htx
      rw [hwrites]
      exact h.unmarked w t tx0 ht htx0
    · exact hcounts.not_holds (hledger.hand w ev (Pc.event_of_lostLease hlost)).1
        (fun r hr => h.lost w ev r hlost hr) hr
    · rcases h.attended_before hledger hcounts hr hstatus hspent with
        ⟨w, ev, r0, hev, hid, -, -, hholds, -⟩ | ⟨token, hholds, hnew⟩
      · exact ⟨w, ev, hev, hid, hholds⟩
      · obtain ⟨req, rfl, -⟩ := (Inbox.effect_of_step hi hb).new_token hi hr hholds hnew
        cases hcall

end Steps

/-! ## Runs -/

section Runs

variable [DecidableEq ω] {d : Deployment ω} {M : Int} {s : State ω}

/-- The states of the runs in which no claim takes over a row whose budget is spent, and last attempts go on to their
end. -/
def WithinBudget (d : Deployment ω) (maxAttempts : Int) (s : State ω) : Prop :=
  ∃ clock logs start, Runs.Reach (system d).run (KeepsBudget d maxAttempts) (State.init clock logs start) s

theorem WithinBudget.inv (h : WithinBudget d M s) (hM : 1 ≤ M) (hmax : ∀ w, (d.config w).maxAttempts = M) :
    Ledger d M s ∧ Owned d M s := by
  obtain ⟨clock, logs, start, hrun⟩ := h
  refine hrun.inv (I := fun s => Ledger d M s ∧ Owned d M s) ?_ ⟨.init clock logs start, .init clock logs start⟩
  rintro t a u ⟨hledger, howned⟩ hC hs
  cases a with
  | party w a =>
    obtain ⟨⟨v', x'⟩, hstep, rfl⟩ := Option.map_eq_some_iff.mp hs
    have hnext := next_of_workerStep hstep
    exact ⟨hnext.ledger hledger hM hmax hC.takesOver, hnext.owned hledger howned hM hmax hC⟩
  | env e =>
    obtain ⟨v', hv, rfl⟩ := Option.map_eq_some_iff.mp hs
    exact ⟨hledger.env_step hM hv, howned.env_step hledger hM hv⟩

/-- A failed attempt whose number is not below MaxAttempts leaves the row dead, if the call is made and the row is still
the worker's. -/
theorem transition_dead {w : ω} {s' : State ω} {record : SourceRecord} {event : Inbox.Event} {failure : Failure}
    {delay : Int} {reply : Reply} {now : Int} (hinv : Inbox.Inv s.world.inbox)
    (hpc : (s.party w).pc = .failing record event failure) (hlast : d.LastAttempt w event)
    (hs : (system d).run s (.party w (.transitionFailure delay reply now)) = some s') :
    (∃ r, s'.world.inbox.db.row (d.key event.eventID) = some r ∧ r.status = .dead) ∨
      s'.world.inbox.db.row (d.key event.eventID) = s.world.inbox.db.row (d.key event.eventID) ∧
        (reply = .failed ∨ ∀ r, s.world.inbox.db.row (d.key event.eventID) = some r →
          r.holds event.leaseToken = false) := by
  obtain ⟨⟨v', x'⟩, hstep, rfl⟩ := Option.map_eq_some_iff.mp hs
  cases next_of_workerStep hstep with
  | polled hpc' | noRecord hpc' => cases hpc.symm.trans hpc'
  | gaveUp _ hfailed =>
    obtain ⟨_, _, heq⟩ := hfailed event (by rw [hpc]; rfl)
    cases heq
    exact .inr ⟨rfl, .inl rfl⟩
  | aborted _ htx =>
    rw [hpc] at htx
    cases htx
  | transitioned hpc' hs =>
    cases hpc.symm.trans hpc'
    unfold transition at hs
    rw [if_pos (.inr hlast)] at hs
    by_cases hholds : ∃ r, s.world.inbox.db.row (d.key event.eventID) = some r ∧ r.holds event.leaseToken = true
    · obtain ⟨r, hr, hholds⟩ := hholds
      exact .inl (Inbox.markDead_of_holds hs hr hholds)
    · rcases (Inbox.effect_of_step hinv hs).markDead with hsame | hdead
      · exact .inr ⟨hsame, .inr fun r hr => by simpa using fun h => hholds ⟨r, hr, h⟩⟩
      · exact .inl hdead

/-- **The starts of a handler are bounded, and a spent budget ends with a dead row**, in a run in which no claim takes
over a row whose budget is spent and last attempts go on to their end.  There are at most MaxAttempts starts and one for
each RetryDead; a row whose budget is spent is processed, dead, or in the hands of a worker that is at this attempt; and
if the attempt fails, the row becomes dead. -/
theorem attempts_bounded (hM : 1 ≤ M) (hmax : ∀ w, (d.config w).maxAttempts = M) (h : WithinBudget d M s)
    (id : Uuid) :
    ((starts s.world.events (d.key id)).length : Int) ≤ M + retries s.world.inbox id ∧
    (∀ r, s.world.inbox.db.row (d.key id) = some r → M + retries s.world.inbox id ≤ r.attempts →
      r.status = .processed ∨ r.status = .dead ∨
        ∃ w ev, (s.party w).pc.event = some ev ∧ ev.eventID = id ∧ r.holds ev.leaseToken = true) ∧
    ∀ w record event failure delay reply now s', (s.party w).pc = .failing record event failure →
    event.eventID = id →
      M ≤ event.attempts → (system d).run s (.party w (.transitionFailure delay reply now)) = some s' →
      (∃ r, s'.world.inbox.db.row (d.key id) = some r ∧ r.status = .dead) ∨
        s'.world.inbox.db.row (d.key id) = s.world.inbox.db.row (d.key id) ∧
          (reply = .failed ∨ ∀ r, s.world.inbox.db.row (d.key id) = some r →
            r.holds event.leaseToken = false) := by
  obtain ⟨hledger, howned⟩ := h.inv hM hmax
  refine ⟨hledger.length_starts hM id, fun r hr hspent => ?_, ?_⟩
  · have hwaits := fun hopen => (hledger.budget.within _ r hr hopen).2
    cases hstatus : r.status with
    | inflight => exact .inr (.inr (howned.attended id r hr hstatus hspent))
    | processed => exact .inl rfl
    | dead => exact .inr (.inl rfl)
    | pending => exact absurd hspent (not_le.mpr (hwaits (by simp [hstatus]) (.inl hstatus)))
    | retryWait => exact absurd hspent (not_le.mpr (hwaits (by simp [hstatus]) (.inr hstatus)))
  · rintro w record event failure delay reply now s' hpc rfl hlast hs
    exact transition_dead hledger.budget.inbox hpc (by rwa [Deployment.LastAttempt, hmax]) hs

end Runs

/-- A test for `KeepsBudget`. -/
def keepsBudget (d : Deployment ω) (maxAttempts : Int) (s : State ω) : Action ω → Bool
  | .party w (.claim _ reply _) =>
    reply ≠ .lost && match (s.party w).pc with
      | .claiming _ id => (s.world.inbox.db.row (d.key id)).all fun r =>
          r.status ≠ .inflight || r.attempts < maxAttempts + retries s.world.inbox id
      | _ => true
  | .party _ .crash => false
  | .party _ (.markProcessed fails) => !fails
  | .party _ (.commitTx reply _) | .party _ (.transitionFailure _ reply _) => reply ≠ .failed
  | _ => true

theorem keepsBudget_sound {d : Deployment ω} {M : Int} {s : State ω} {a : Action ω}
    (h : keepsBudget d M s a = true) : KeepsBudget d M s a := by
  cases a with
  | env e => exact ⟨trivial, trivial⟩
  | party w a =>
    cases a with
    | claim token reply now =>
      obtain ⟨hreply, htest⟩ := Bool.and_eq_true_iff.mp h
      refine ⟨fun record id r hpc hr _ hinflight => ?_, fun hlost => absurd hlost (of_decide_eq_true hreply)⟩
      simpa [hpc, hr, hinflight] using htest
    | crash => cases h
    | markProcessed fails =>
      refine ⟨trivial, fun hfails => ?_⟩
      subst hfails
      cases h
    | commitTx reply | transitionFailure _ reply =>
      exact ⟨trivial, fun hfailed => absurd hfailed (of_decide_eq_true h)⟩
    | _ => exact ⟨trivial, trivial⟩

/-- The only attempt fails, an operator retries the dead event, and the handler is started again. -/
def exampleRetryDead : List (Action Bool) :=
  exampleFirstClaim ++ [.party false (.beginTx none), .party false (.handlerReturned (some (false, false)) none 0),
    .party false (.transitionFailure 0 .ok 0), .party false .rewind,
    .env (.retryDead ⟨"billing", 7, "ops", "fixed", ""⟩ 90)] ++
  examplePoll false 0 2 ++ [.party false (.beginTx none)]

/-- The budget is spent again, and the row is in the hands of the worker whose handler runs. -/
theorem attempts_bounded_retry : ∃ (s : State Bool) (r : Inbox.Row), WithinBudget exampleBudget 1 s ∧
    retries s.world.inbox 7 = 1 ∧ (starts s.world.events ("billing", 7)).length = 2 ∧
    ((starts s.world.events (exampleBudget.key 7)).length : Int) ≤ 1 + retries s.world.inbox 7 ∧
    s.world.inbox.db.row (exampleBudget.key 7) = some r ∧ r.status = .inflight ∧
    ∃ w ev, (s.party w).pc.event = some ev ∧ ev.eventID = 7 ∧ r.holds ev.leaseToken = true := by
  obtain ⟨s, hrun, hp⟩ := Runs.exists_of_guarded (system exampleBudget).run (keepsBudget exampleBudget 1)
    (I := fun _ => True) (fun _ _ _ _ _ => trivial) (fun _ _ _ => keepsBudget_sound)
    (State.init 0 exampleLogs fun _ => 0) trivial exampleRetryDead
    (fun s => retries s.world.inbox 7 = 1 && (starts s.world.events ("billing", 7)).length = 2 &&
      (s.world.inbox.db.row ("billing", 7)).any fun r => r.status = .inflight && r.attempts = 2) (by decide +kernel)
  simp only [Bool.and_eq_true, decide_eq_true_eq] at hp
  obtain ⟨⟨hretries, hstarts⟩, hrow⟩ := hp
  obtain ⟨r, hr, htest⟩ := (Option.any_eq_true ..).mp hrow
  simp only [Bool.and_eq_true, decide_eq_true_eq] at htest
  have hwithin : WithinBudget exampleBudget 1 s := ⟨0, exampleLogs, _, hrun⟩
  obtain ⟨hbound, hspent, -⟩ := attempts_bounded (le_refl 1) (fun _ => rfl) hwithin 7
  refine ⟨s, r, hwithin, hretries, hstarts, hbound, hr, htest.1, ?_⟩
  rcases hspent r hr (by rw [hretries, htest.2]; rfl) with hprocessed | hdead | hattended
  · rw [htest.1] at hprocessed
    cases hprocessed
  · rw [htest.1] at hdead
    cases hdead
  · exact hattended

/-- The worker crashes in its only attempt.  When the lease has ended, the event is claimed again, and its handler is
started a second time; no operator has retried it. -/
theorem attempts_exceed_budget : (∀ w, (exampleBudget.config w).Valid ∧
      (exampleBudget.config w).maxAttempts = 1) ∧
    ∃ s : State Bool, Runs.Reach (system exampleBudget).run Runs.Free (State.init 0 exampleLogs fun _ => 0) s ∧
      retries s.world.inbox 7 = 0 ∧ (starts s.world.events ("billing", 7)).length = 2 := by
  refine ⟨by decide +kernel, ?_⟩
  obtain ⟨s, hrun, hp⟩ := Runs.exists_of_exec (system exampleBudget).run (State.init 0 exampleLogs fun _ => 0)
    (exampleFirstClaim ++ [.party false (.beginTx none), .party false .crash, .env (.tick 31000000),
      .party false (.assigned examplePartition), .party false (.resumeDue 0 fun _ => false), .party false (.ping true),
      .party false (.pollRecords ⟨some examplePartition, []⟩ false), .party false (.claim 2 .ok 0),
      .party false (.beginTx none)])
    (fun s => retries s.world.inbox 7 = 0 && (starts s.world.events ("billing", 7)).length = 2) (by decide +kernel)
  obtain ⟨hretries, hstarts⟩ := Bool.and_eq_true_iff.mp hp
  exact ⟨s, hrun, of_decide_eq_true hretries, of_decide_eq_true hstarts⟩

end Emitlane.Consumer
