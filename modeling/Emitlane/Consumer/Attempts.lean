import Mathlib.Data.Int.Interval
import Emitlane.Consumer.DeadLetters

/-!
# Consumer.Attempts — how often the handler of an event is started

An attempt is counted when the row is claimed, and the budget is checked when the attempt fails: MarkRetry below
`MaxAttempts`, MarkDead from there on.  A worker that crashes does not get there.  Its row stays inflight, and the next
Claim takes it over when the lease has ended, whatever its attempts are.

If no claim takes over a row whose budget is spent, every start of a handler has an attempt number of its own, and the
numbers stay within the budget (`Ledger`).  An operator's RetryDead keeps the attempts and adds one to the budget; the
audit log counts them.
-/

namespace Emitlane.Consumer

open Inbox (Key)

variable {ω : Type}

/-- The successful RetryDead calls for an event: each leaves one audit record. -/
def retries (v : Inbox.State) (id : Uuid) : Nat :=
  (v.db.audit.rows.filter fun a => a.action = "inbox.retry" && a.targetEventID = some id).length

/-- The attempt number with which the handler was started for the pair, if that is what happened. -/
def Event.attempt (k : Key) : Event ω → Option Int
  | .started _ k' n => if k' = k then some n else none
  | _ => none

/-- The attempt numbers of the starts of a pair. -/
def starts (events : List (Event ω)) (k : Key) : List Int := events.filterMap (Event.attempt k)

/-- No claim takes over an inflight row whose budget is spent. -/
def TakesOverWithin (d : Deployment ω) (maxAttempts : Int) (s : State ω) : Action ω → Prop
  | .party w (.claim _ _ _) => ∀ record id r, (s.party w).pc = .claiming record id →
      s.world.inbox.db.row (d.key id) = some r → r.claimable s.world.inbox.clock = true → r.status = .inflight →
      r.attempts < maxAttempts + retries s.world.inbox id
  | _ => True

/-! ## The rows -/

section Rows

variable (d : Deployment ω) (maxAttempts : Int) (v : Inbox.State)

/-- The rows are within the budget, and a row that waits for an attempt has one left. -/
structure Budget : Prop where
  inbox : Inbox.Inv v
  consumer : ∀ k r, v.db.row k = some r → k.1 = d.consumer
  /-- The transactions write over rows that are there. -/
  written : ∀ t tx, v.txs t = some tx → ∀ x ∈ tx.work.writes, x.old ≠ none
  within : ∀ k r, v.db.row k = some r → r.status ≠ .processed →
    r.attempts ≤ maxAttempts + retries v k.2 ∧
    (r.status = .pending ∨ r.status = .retryWait → r.attempts < maxAttempts + retries v k.2)

/-- An attempt number that was given to a claim of the event. -/
def Spent (id : Uuid) (n : Int) : Prop :=
  1 ≤ n ∧ n ≤ maxAttempts + retries v id ∧
    ∃ r, v.db.row (d.key id) = some r ∧ (r.status ≠ .processed → n ≤ r.attempts)

/-- A claim in hand: as long as the row has its token, it has its attempts. -/
def InHandOf (ev : Inbox.Event) : Prop :=
  v.drawn ev.leaseToken = true ∧ ∀ r, v.db.row (d.key ev.eventID) = some r →
    r.holds ev.leaseToken = true → r.attempts = ev.attempts

/-- What is known of the arguments of a call. -/
structure Obeys (b : Inbox.Action) : Prop where
  legacy : b.isLegacy = false
  claim : ∀ req token, b = .claim req token → req.consumer = d.consumer ∧
    ∀ r, v.db.row req.key = some r → r.claimable v.clock = true → r.status = .inflight →
      r.attempts < maxAttempts + retries v req.eventID
  retry : ∀ k token delay lastError, b = .markRetry k token delay lastError →
    ∀ r, v.db.row k = some r → r.holds token = true → r.attempts < maxAttempts

end Rows

/-- A row that a step has changed. -/
structure Changed (d : Deployment ω) (maxAttempts : Int) (v v' : Inbox.State) (k : Key) (r' : Inbox.Row) : Prop where
  row : v'.db.row k = some r'
  consumer : k.1 = d.consumer
  within : r'.status ≠ .processed → r'.attempts ≤ maxAttempts + retries v' k.2 ∧
    (r'.status = .pending ∨ r'.status = .retryWait → r'.attempts < maxAttempts + retries v' k.2)
  counts : r'.status ≠ .processed → ∀ r, v.db.row k = some r →
    r.status ≠ .processed ∧ r.attempts ≤ r'.attempts
  token : ∀ token, v.drawn token = true → r'.holds token = true →
    ∃ r, v.db.row k = some r ∧ r.holds token = true ∧ r'.attempts = r.attempts

/-- What a step does to the attempts. -/
structure Counts (d : Deployment ω) (maxAttempts : Int) (v v' : Inbox.State) : Prop where
  retries : ∀ id, retries v id ≤ retries v' id
  drawn : ∀ token, v.drawn token = true → v'.drawn token = true
  rows : ∀ k, v'.db.row k = v.db.row k ∨ ∃ r', Changed d maxAttempts v v' k r'

section Counts

variable {d : Deployment ω} {M : Int} {v v' : Inbox.State}

theorem Counts.refl (v : Inbox.State) : Counts d M v v := ⟨fun _ => le_refl _, fun _ h => h, fun _ => .inl rfl⟩

theorem Counts.spent (h : Counts d M v v') {id : Uuid} {n : Int} (hn : Spent d M v id n) : Spent d M v' id n := by
  obtain ⟨hpos, hle, r, hr, hcount⟩ := hn
  have hmono := h.retries id
  refine ⟨hpos, by omega, ?_⟩
  rcases h.rows (d.key id) with hsame | ⟨r', hr'⟩
  · exact ⟨r, hsame.trans hr, hcount⟩
  · refine ⟨r', hr'.row, fun hopen => ?_⟩
    obtain ⟨hstatus, hattempts⟩ := hr'.counts hopen r hr
    exact (hcount hstatus).trans hattempts

theorem Counts.inHand (h : Counts d M v v') {ev : Inbox.Event} (hev : InHandOf d v ev) : InHandOf d v' ev := by
  refine ⟨h.drawn _ hev.1, fun r hr hholds => ?_⟩
  rcases h.rows (d.key ev.eventID) with hsame | ⟨r', hr'⟩
  · exact hev.2 r (hsame ▸ hr) hholds
  · obtain rfl : r' = r := Option.some.inj (hr'.row.symm.trans hr)
    obtain ⟨r0, hr0, hholds0, hattempts⟩ := hr'.token _ hev.1 hholds
    rw [hattempts]
    exact hev.2 r0 hr0 hholds0

end Counts

/-! ## The steps of the Inbox -/

section Steps

variable {d : Deployment ω} {M : Int} {v : Inbox.State} {i : Inbox.State} {b : Inbox.Action}

theorem retries_of_audit {v v' : Inbox.State} (h : v'.db.audit = v.db.audit) (id : Uuid) :
    retries v' id = retries v id := by
  unfold retries
  rw [h]

theorem retries_append {v v' : Inbox.State} {audit : AuditRow} {id : Uuid}
    (h : v'.db.audit.rows = v.db.audit.rows ++ [audit]) (haction : audit.action = "inbox.retry")
    (htarget : audit.targetEventID = some id) (id' : Uuid) :
    retries v' id' = retries v id' + if id = id' then 1 else 0 := by
  unfold retries
  rw [h, List.filter_append, List.length_append]
  by_cases hid : id = id' <;> simp [haction, htarget, hid]

/-- A transaction writes over a row that is there, since no markers are inserted. -/
theorem Budget.written_step (h : Budget d M v) (hs : Inbox.Next v b i) (hb : b.isLegacy = false) :
    ∀ t tx, i.txs t = some tx → ∀ x ∈ tx.work.writes, x.old ≠ none := by
  intro t tx htx x hx
  have hupdate : ∀ {t' : Nat} {y : Option Inbox.Tx},
    (∀ z, y = some z → ∀ x ∈ z.work.writes, x.old ≠ none) →
      Function.update v.txs t' y t = some tx → x.old ≠ none := by
    intro t' y hy htx
    rcases Runs.of_update htx with ⟨-, hnew⟩ | ⟨-, hold⟩
    · exact hy tx hnew x hx
    · exact h.written t tx hold x hx
  cases hs with
  | tick | idle | call => exact h.written t tx htx x hx
  | begin => exact hupdate (fun z hz x hx => by cases hz; cases hx) htx
  | markProcessed h0 _ _ hview hholds =>
    refine hupdate (fun z hz x hx => ?_) htx
    obtain rfl := Option.some.inj hz
    rcases List.mem_cons.mp hx with rfl | hx
    · have hrow := (h.inbox.txs h0).row_of_view hview (Inbox.Row.holds_status hholds)
      rw [← Inbox.Tx.view_key hview] at hrow
      exact fun hnone => Option.some_ne_none _ (hrow.symm.trans hnone)
    · exact h.written _ _ h0 x hx
  | process | «return» => cases hb
  | commit | rollback => exact hupdate (fun _ hz => by cases hz) htx

/-- A claim takes one attempt of the budget. -/
theorem Budget.claim_lt (h : Budget d M v) (hM : 1 ≤ M) {req : Inbox.ClaimRequest} {token : Uuid} {r : Inbox.Row}
    (hb : Obeys d M v (.claim req token))
    (hrow : v.db.row req.key = some r ∨ (v.db.row req.key = none ∧ r = Inbox.pendingRow v.clock req))
    (hclaimable : r.claimable v.clock = true) : r.attempts < M + retries v req.eventID := by
  rcases hrow with hrow | ⟨-, rfl⟩
  · by_cases hinflight : r.status = .inflight
    · exact (hb.claim req token rfl).2 r hrow hclaimable hinflight
    · refine (h.within _ r hrow (Inbox.Row.claimable_status hclaimable)).2 ?_
      simp only [Inbox.Row.claimable, hinflight, decide_false, Bool.false_and, Bool.or_false, Bool.and_eq_true,
        Bool.or_eq_true, decide_eq_true_eq] at hclaimable
      exact hclaimable.1
  · have hzero : (Inbox.pendingRow v.clock req).attempts = 0 := rfl
    omega

/-- A token call keeps the attempts of its row, and leaves it within the budget. -/
theorem Budget.changed_of_token (h : Budget d M v) (hb : Obeys d M v b) {k : Key} {token : Uuid}
    {f : Inbox.Row → Inbox.Row} {r : Inbox.Row} (hcall : b.tokenCall v.clock = some (k, token, f))
    (hrow : v.db.row k = some r) (hholds : r.holds token = true) (hi : i.db.row k = some (f r))
    (hretries : ∀ id, retries i id = retries v id) :
    Changed d M v i k (f r) := by
  have hopen := Inbox.Row.holds_status hholds
  have hwithin := (h.within k r hrow hopen).1
  have hchanged : ∀ r' : Inbox.Row, i.db.row k = some r' → r'.attempts = r.attempts →
      (r'.status = .pending ∨ r'.status = .retryWait → r.attempts < M + retries v k.2) →
      (∀ token, r'.holds token = true → r.holds token = true) → Changed d M v i k r' := by
    intro r' hr' hattempts hwaits htoken
    refine ⟨hr', h.consumer k r hrow, fun _ => ?_, fun _ r0 hr0 => ?_,
      fun token _ ht => ⟨r, hrow, htoken token ht, hattempts⟩⟩
    · rw [hretries, hattempts]
      exact ⟨hwithin, hwaits⟩
    · obtain rfl : r = r0 := Option.some.inj (hrow.symm.trans hr0)
      exact ⟨hopen, hattempts.ge⟩
  have hstatus := (Inbox.Row.holds_iff.mp hholds).1
  cases b with
  | renew k1 token1 lease =>
    cases hcall
    refine hchanged _ hi rfl (fun hw => ?_) fun token ht => ht
    simp [Inbox.Row.renewed, hstatus] at hw
  | markRetry k1 token1 delay lastError =>
    cases hcall
    refine hchanged _ hi rfl (fun _ => ?_) fun token ht => by cases ht
    have hlt := hb.retry _ _ _ _ rfl r hrow hholds
    omega
  | markDead k1 token1 lastError =>
    cases hcall
    exact hchanged _ hi rfl (fun hw => by rcases hw with hw | hw <;> cases hw) fun token ht => by cases ht
  | _ => cases hcall

theorem Budget.counts (h : Budget d M v) (hM : 1 ≤ M) (hb : Obeys d M v b) (hs : Inbox.step v b = some i) :
    Counts d M v i := by
  cases Inbox.effect_of_step h.inbox hs with
  | none hrows haudit hhist => exact ⟨fun id => (retries_of_audit haudit id).ge, hhist, fun k => .inl (hrows k)⟩
  | @claim req token r _ _ hrow hclaimable hnew hrows haudit hhist =>
    have hretries : ∀ id, retries i id = retries v id := retries_of_audit haudit
    have hlt := h.claim_lt hM hb hrow hclaimable
    refine ⟨fun id => (hretries id).ge, fun token hd => Inbox.State.drawn_cons hhist hd, fun k => ?_⟩
    by_cases hk : k = req.key
    · subst hk
      refine .inr ⟨r.lease v.clock req token, by rw [hrows, if_pos rfl],
        (hb.claim req token rfl).1, fun _ => ?_, fun _ r0 hr0 => ?_, fun token' hd ht => ?_⟩
      · rw [hretries]
        refine ⟨?_, fun hw => by rcases hw with hw | hw <;> cases hw⟩
        change r.attempts + 1 ≤ _
        exact hlt
      · rcases hrow with hrow | ⟨hnone, -⟩
        · obtain rfl : r = r0 := Option.some.inj (hrow.symm.trans hr0)
          exact ⟨Inbox.Row.claimable_status hclaimable, (Int.lt_succ _).le⟩
        · rw [hnone] at hr0
          cases hr0
      -- the new token was not drawn before
      · obtain rfl : token = token' := Option.some.inj (Inbox.Row.holds_iff.mp ht).2
        rw [hnew] at hd
        cases hd
    · exact .inl (by rw [hrows, if_neg hk])
  | @token _ k' token f r _ hcall hrow hholds hrows haudit hhist =>
    have hretries : ∀ id, retries i id = retries v id := retries_of_audit haudit
    refine ⟨fun id => (hretries id).ge, fun token hd => by rwa [Inbox.State.drawn, hhist], fun k => ?_⟩
    by_cases hk : k = k'
    · subst hk
      exact .inr ⟨f r, h.changed_of_token hb hcall hrow hholds (by rw [hrows, if_pos rfl]) hretries⟩
    · exact .inl (by rw [hrows, if_neg hk])
  | @retryDead request auditID r audit _ hrow hdead hrows haudit haction htarget hhist =>
    have hretries := retries_append haudit haction htarget
    refine ⟨fun id => by rw [hretries]; omega, fun token hd => by rwa [Inbox.State.drawn, hhist], fun k => ?_⟩
    by_cases hk : k = (trimSpace request.consumer, request.eventID)
    · have hopen : r.status ≠ .processed := by rw [hdead]; decide
      subst hk
      refine .inr ⟨r.reopened v.clock, by rw [hrows, if_pos rfl], h.consumer _ r hrow, fun _ => ?_,
        fun _ r0 hr0 => ?_, fun token _ ht => by cases ht⟩
      -- the retry that opens the row adds one to its budget
      · have hle : r.attempts ≤ M + retries v request.eventID := (h.within _ r hrow hopen).1
        have hattempts : (r.reopened v.clock).attempts = r.attempts := rfl
        rw [hretries, if_pos rfl, hattempts]
        push_cast
        omega
      · obtain rfl : r = r0 := Option.some.inj (hrow.symm.trans hr0)
        exact ⟨hopen, le_refl _⟩
    · exact .inl (by rw [hrows, if_neg hk])
  | @commit t tx _ htx hrows haudit hhist =>
    have hretries : ∀ id, retries i id = retries v id := retries_of_audit haudit
    refine ⟨fun id => (hretries id).ge, hhist, fun k => ?_⟩
    rcases hrows k with hsame | ⟨x, hx, hallowed, hr', hold⟩
    · exact .inl hsame
    · obtain ⟨r, hr⟩ := Option.ne_none_iff_exists'.mp (h.written t tx htx x hx)
      have hprocessed := hallowed.status.1
      refine .inr ⟨x.new, hr', h.consumer k r (hold.trans hr), fun hopen => absurd hprocessed hopen,
        fun hopen => absurd hprocessed hopen, fun token _ ht => absurd hprocessed (Inbox.Row.holds_status ht)⟩

theorem Budget.step (h : Budget d M v) (hM : 1 ≤ M) (hb : Obeys d M v b) (hs : Inbox.step v b = some i) :
    Budget d M i := by
  have hcounts := h.counts hM hb hs
  refine ⟨h.inbox.next hs, fun k r hr => ?_, h.written_step (Inbox.next_of_step h.inbox.bounded hs) hb.legacy,
    fun k r hr hopen => ?_⟩
  · rcases hcounts.rows k with hsame | ⟨r', hr'⟩
    · exact h.consumer k r (hsame.symm.trans hr)
    · exact hr'.consumer
  · rcases hcounts.rows k with hsame | ⟨r', hr'⟩
    · have hold := h.within k r (hsame.symm.trans hr) hopen
      have hmono := hcounts.retries k.2
      exact ⟨by omega, fun hw => by have := hold.2 hw; omega⟩
    · obtain rfl : r' = r := Option.some.inj (hr'.row.symm.trans hr)
      exact hr'.within hopen

end Steps

/-! ## The workers -/

/-- The claim whose handler is not yet started. -/
def Pc.unstarted : Pc → Option Inbox.Event
  | .beginning _ ev => some ev
  | _ => none

/-- The starts of a pair have different attempt numbers, all within the budget, and the claims that will be started
have others. -/
structure Ledger (d : Deployment ω) (maxAttempts : Int) (s : State ω) : Prop where
  budget : Budget d maxAttempts s.world.inbox
  hand : ∀ w ev, (s.party w).pc.event = some ev → InHandOf d s.world.inbox ev
  nodup : ∀ id, (starts s.world.events (d.key id)).Nodup
  spent : ∀ id, ∀ n ∈ starts s.world.events (d.key id), Spent d maxAttempts s.world.inbox id n
  fresh : ∀ w ev, (s.party w).pc.unstarted = some ev → Spent d maxAttempts s.world.inbox ev.eventID ev.attempts ∧
    ev.attempts ∉ starts s.world.events (d.key ev.eventID)
  apart : ∀ w w' ev ev', (s.party w).pc.unstarted = some ev → (s.party w').pc.unstarted = some ev' → w ≠ w' →
    ev.eventID = ev'.eventID → ev.attempts ≠ ev'.attempts

section Workers

variable {d : Deployment ω} {M : Int} {s : State ω}

/-- A step that starts no handler and gives no claim. -/
theorem Ledger.of_counts (h : Ledger d M s) (v' : World ω) (hbudget : Budget d M v'.inbox)
    (hcounts : Counts d M s.world.inbox v'.inbox) (hstarts : ∀ k, starts v'.events k = starts s.world.events k)
    {party' : ω → Worker} (hevent : ∀ w ev, (party' w).pc.event = some ev → (s.party w).pc.event = some ev)
    (hunstarted : ∀ w ev, (party' w).pc.unstarted = some ev → (s.party w).pc.unstarted = some ev) :
    Ledger d M ⟨v', party'⟩ where
  budget := hbudget
  hand w ev hev := hcounts.inHand (h.hand w ev (hevent w ev hev))
  nodup id := by
    rw [hstarts]
    exact h.nodup id
  spent id n hn := by
    rw [hstarts] at hn
    exact hcounts.spent (h.spent id n hn)
  fresh w ev hev := by
    obtain ⟨hspent, hnew⟩ := h.fresh w ev (hunstarted w ev hev)
    rw [hstarts]
    exact ⟨hcounts.spent hspent, hnew⟩
  apart w w' ev ev' hev hev' := h.apart w w' ev ev' (hunstarted w ev hev) (hunstarted w' ev' hev')

theorem StoreCall.obeys {w : ω} {a : WorkerAction} {b : Inbox.Action}
    (hcall : StoreCall d w s.world (s.party w).pc a b)
    (h : Ledger d M s) (hmax : ∀ w, (d.config w).maxAttempts = M) (hC : TakesOverWithin d M s (.party w a)) :
    Obeys d M s.world.inbox b := by
  cases hcall with
  | @claim token reply now record eventID hpc =>
    refine ⟨rfl, fun req token' hreq => ?_, fun _ _ _ _ h => nomatch h⟩
    cases hreq
    have hconsumer : (claimRequest d w record eventID).consumer = d.consumer := d.one w
    refine ⟨hconsumer, fun r hr => ?_⟩
    rw [Inbox.ClaimRequest.key, hconsumer] at hr
    exact hC record eventID r hpc hr
  | @transition delay reply now record event failure hpc =>
    unfold Consumer.transition
    dsimp only
    split_ifs with hcond
    · exact ⟨rfl, (fun _ _ h => nomatch h), fun _ _ _ _ h => nomatch h⟩
    · refine ⟨rfl, (fun _ _ h => nomatch h), fun k token delay' lastError hb r hr hholds => ?_⟩
      cases hb
      rw [(h.hand w event (by rw [hpc]; rfl)).2 r hr hholds]
      rw [hmax] at hcond
      omega
  | _ => exact ⟨rfl, (fun _ _ h => nomatch h), fun _ _ _ _ h => nomatch h⟩

theorem EnvCall.obeys {b : Inbox.Action} (hcall : EnvCall b) (i : Inbox.State) : Obeys d M i b := by
  cases hcall <;> exact ⟨rfl, (fun _ _ h => nomatch h), fun _ _ _ _ h => nomatch h⟩

/-- The row a successful claim leased, and the event it returned. -/
theorem claim_step {i i' : Inbox.State} {req : Inbox.ClaimRequest} {token : Uuid} {db : Inbox.Db}
    {result : Inbox.ClaimResult} (hs : Inbox.step i (.claim req token) = some i')
    (hclaim : i.db.claim i.clock req token = .ok (db, result)) (hclaimed : result.disposition = .claimed) :
    ∃ r, (i.db.row req.key = some r ∨ (i.db.row req.key = none ∧ r = Inbox.pendingRow i.clock req)) ∧
      r.claimable i.clock = true ∧ result.event = Inbox.scanInboxEvent (r.lease i.clock req token) ∧
      i'.db.row req.key = some (r.lease i.clock req token) ∧ i'.drawn token = true := by
  obtain ⟨r, hr, ⟨hclaimable, rfl, hrows⟩ | ⟨-, -, -, rfl⟩⟩ := Inbox.Db.claim_ok hclaim
  · simp only [Inbox.step, hclaim] at hs
    split_ifs at hs
    rcases Inbox.State.call_some hs with ⟨-, e, he⟩ | ⟨db', hdb, rfl⟩
    · cases he
    · obtain rfl := Except.ok.inj hdb
      refine ⟨r, hr, hclaimable, rfl, by rw [hrows, if_pos rfl], ?_⟩
      simp [Inbox.State.drawn]
  · exact absurd hclaimed (Inbox.Status.disposition_ne_claimed _)

theorem Pc.event_of_unstarted {pc : Pc} {ev : Inbox.Event} (h : pc.unstarted = some ev) : pc.event = some ev := by
  cases pc <;> cases h
  rfl

variable {w : ω} {v' : World ω} {x' : Worker} {ev : Inbox.Event}

theorem Ledger.init (clock : Int) (logs : TopicPartition → List Entry) (start : TopicPartition → Nat) :
    Ledger d M (State.init clock logs start) where
  budget := ⟨.init clock, (fun _ _ h => nomatch h), (fun _ _ h => nomatch h), fun _ _ h => nomatch h⟩
  hand _ _ h := nomatch h
  nodup _ := List.nodup_nil
  spent _ _ h := nomatch h
  fresh _ _ h := nomatch h
  apart _ _ _ _ h := nomatch h

/-- Different numbers from 1 to the budget are at most as many. -/
theorem Ledger.length_starts (h : Ledger d M s) (hM : 1 ≤ M) (id : Uuid) :
    ((starts s.world.events (d.key id)).length : Int) ≤ M + retries s.world.inbox id := by
  have hsub : (starts s.world.events (d.key id)).toFinset ⊆ Finset.Icc 1 (M + retries s.world.inbox id) := by
    intro n hn
    obtain ⟨hpos, hle, -⟩ := h.spent id n (List.mem_toFinset.mp hn)
    exact Finset.mem_Icc.mpr ⟨hpos, hle⟩
  have hcard := Finset.card_le_card hsub
  rw [List.toFinset_card_of_nodup (h.nodup id), Int.card_Icc] at hcard
  omega

/-- A handler is started with an attempt number that no other claim has. -/
theorem Ledger.start (h : Ledger d M s) (hspent : Spent d M s.world.inbox ev.eventID ev.attempts)
    (hnew : ev.attempts ∉ starts s.world.events (d.key ev.eventID))
    (hother : ∀ w' ev', (s.party w').pc.unstarted = some ev' → ev'.eventID = ev.eventID →
      ev'.attempts ≠ ev.attempts) :
    Ledger d M ⟨s.world.emit [.started w (d.key ev.eventID) ev.attempts], s.party⟩ := by
  have hstarts : ∀ id, starts (s.world.emit [.started w (d.key ev.eventID) ev.attempts]).events (d.key id) =
      if ev.eventID = id then ev.attempts :: starts s.world.events (d.key id)
      else starts s.world.events (d.key id) := by
    intro id
    simp only [starts, World.emit, List.singleton_append, List.filterMap_cons, Event.attempt, Deployment.key,
      Prod.mk.injEq, true_and]
    split_ifs <;> rfl
  refine ⟨h.budget, h.hand, fun id => ?_, fun id n hn => ?_, fun w1 ev1 hev1 => ?_, h.apart⟩
  · rw [hstarts]
    split_ifs with hid
    · subst hid
      exact List.nodup_cons.mpr ⟨hnew, h.nodup _⟩
    · exact h.nodup id
  · rw [hstarts] at hn
    split_ifs at hn with hid
    · subst hid
      rcases List.mem_cons.mp hn with rfl | hn
      · exact hspent
      · exact h.spent _ n hn
    · exact h.spent id n hn
  · obtain ⟨hspent1, hnew1⟩ := h.fresh w1 ev1 hev1
    refine ⟨hspent1, ?_⟩
    rw [hstarts]
    split_ifs with hid
    · exact List.not_mem_cons_of_ne_of_not_mem (hother w1 ev1 hev1 hid.symm) hnew1
    · exact hnew1

variable [DecidableEq ω]

/-- A step of a worker that starts no handler and gives it no claim. -/
theorem Ledger.of_worker (h : Ledger d M s) (w : ω) (x' : Worker) (v' : World ω) (hbudget : Budget d M v'.inbox)
    (hcounts : Counts d M s.world.inbox v'.inbox) (hstarts : ∀ k, starts v'.events k = starts s.world.events k)
    (hevent : ∀ ev, x'.pc.event = some ev → (s.party w).pc.event = some ev)
    (hunstarted : ∀ ev, x'.pc.unstarted = some ev → (s.party w).pc.unstarted = some ev) :
    Ledger d M ⟨v', Function.update s.party w x'⟩ := by
  refine h.of_counts v' hbudget hcounts hstarts ?_ ?_ <;> intro w1 ev1 hev1 <;> by_cases hw : w1 = w
  · subst hw
    exact hevent ev1 (by rwa [Function.update_self] at hev1)
  · rwa [Function.update_of_ne hw] at hev1
  · subst hw
    exact hunstarted ev1 (by rwa [Function.update_self] at hev1)
  · rwa [Function.update_of_ne hw] at hev1

/-- A worker gets a claim with an attempt number of its own. -/
theorem Ledger.give (h : Ledger d M s) (hx : x'.pc.unstarted = some ev) (hhand : InHandOf d s.world.inbox ev)
    (hspent : Spent d M s.world.inbox ev.eventID ev.attempts)
    (hnew : ev.attempts ∉ starts s.world.events (d.key ev.eventID))
    (hother : ∀ w' ev', (s.party w').pc.unstarted = some ev' → ev'.eventID = ev.eventID →
      ev'.attempts ≠ ev.attempts) :
    Ledger d M ⟨s.world, Function.update s.party w x'⟩ := by
  have hparty : ∀ w1, (Function.update s.party w x' w1 = x' ∧ w1 = w) ∨
      (Function.update s.party w x' w1 = s.party w1 ∧ w1 ≠ w) := by
    intro w1
    by_cases hw : w1 = w
    · subst hw
      exact .inl ⟨Function.update_self .., rfl⟩
    · exact .inr ⟨Function.update_of_ne hw .., hw⟩
  refine ⟨h.budget, fun w1 ev1 hev1 => ?_, h.nodup, h.spent, fun w1 ev1 hev1 => ?_,
    fun w1 w2 ev1 ev2 hev1 hev2 hne => ?_⟩
  · rcases hparty w1 with ⟨heq, -⟩ | ⟨heq, -⟩ <;> dsimp only at hev1 <;> rw [heq] at hev1
    · obtain rfl : ev = ev1 := Option.some.inj ((Pc.event_of_unstarted hx).symm.trans hev1)
      exact hhand
    · exact h.hand w1 ev1 hev1
  · rcases hparty w1 with ⟨heq, -⟩ | ⟨heq, -⟩ <;> dsimp only at hev1 <;> rw [heq] at hev1
    · obtain rfl : ev = ev1 := Option.some.inj (hx.symm.trans hev1)
      exact ⟨hspent, hnew⟩
    · exact h.fresh w1 ev1 hev1
  · dsimp only at hev1 hev2
    rcases hparty w1 with ⟨heq1, hw1⟩ | ⟨heq1, -⟩ <;> rcases hparty w2 with ⟨heq2, hw2⟩ | ⟨heq2, -⟩ <;>
      rw [heq1] at hev1 <;> rw [heq2] at hev2
    · exact absurd (hw1.trans hw2.symm) hne
    · obtain rfl : ev = ev1 := Option.some.inj (hx.symm.trans hev1)
      exact fun hid => (hother w2 ev2 hev2 hid.symm).symm
    · obtain rfl : ev = ev2 := Option.some.inj (hx.symm.trans hev2)
      exact hother w1 ev1 hev1
    · exact h.apart w1 w2 ev1 ev2 hev1 hev2 hne

/-- A claim gives an attempt number above all that were given before. -/
theorem Ledger.claimed (h : Ledger d M s) (hM : 1 ≤ M) {record : SourceRecord} {eventID token : Uuid}
    {inbox : Inbox.State} {db : Inbox.Db} {result : Inbox.ClaimResult}
    (hobeys : Obeys d M s.world.inbox (.claim (claimRequest d w record eventID) token))
    (hs : Inbox.step s.world.inbox (.claim (claimRequest d w record eventID) token) = some inbox)
    (hclaim : s.world.inbox.db.claim s.world.inbox.clock (claimRequest d w record eventID) token = .ok (db, result))
    (hclaimed : result.disposition = .claimed) :
    Ledger d M ⟨s.world.withInbox inbox,
      Function.update s.party w ((s.party w).goto (.beginning record result.event))⟩ := by
  obtain ⟨r, hr, hclaimable, hevent, hrow', hdrawn⟩ := claim_step hs hclaim hclaimed
  have hkey : (claimRequest d w record eventID).key = d.key eventID := by
    rw [Inbox.ClaimRequest.key, (hobeys.claim _ _ rfl).1]
    rfl
  rw [hkey] at hr hrow'
  have hid : result.event.eventID = eventID := by
    have hrkey : r.key = d.key eventID := by
      rcases hr with hr | ⟨-, rfl⟩
      · exact (Inbox.Db.row_eq_some.mp hr).2
      · exact hkey
    rw [hevent]
    exact congrArg Prod.snd hrkey
  have hattempts : result.event.attempts = r.attempts + 1 := by rw [hevent]; rfl
  have hbudget := h.budget.step hM hobeys hs
  have hcounts := h.budget.counts hM hobeys hs
  have habove : ∀ n, Spent d M s.world.inbox result.event.eventID n → n < result.event.attempts := by
    rintro n ⟨-, -, r0, hr0, hcount⟩
    rw [hid] at hr0
    rcases hr with hr | ⟨hnone, -⟩
    · obtain rfl : r = r0 := Option.some.inj (hr.symm.trans hr0)
      rw [hattempts]
      exact Int.lt_add_one_of_le (hcount (Inbox.Row.claimable_status hclaimable))
    · rw [hnone] at hr0
      cases hr0
  have hspent : Spent d M inbox result.event.eventID result.event.attempts := by
    have hnonneg : 0 ≤ r.attempts := by
      rcases hr with hr | ⟨-, rfl⟩
      · exact Inbox.Db.attempts_nonneg hr
      · exact le_refl _
    have hwithin := (hbudget.within _ _ hrow' (by simp [Inbox.Row.lease])).1
    rw [hid, hattempts]
    exact ⟨by omega, hwithin, _, hrow', fun _ => le_refl _⟩
  have hledger : Ledger d M ⟨s.world.withInbox inbox, s.party⟩ :=
    h.of_counts (s.world.withInbox inbox) hbudget hcounts (fun _ => rfl) (fun _ _ h => h) (fun _ _ h => h)
  refine hledger.give rfl ⟨?_, fun r1 hr1 _ => ?_⟩ hspent (fun hmem => ?_) fun w' ev' hev' hsame heq => ?_
  · rw [hevent]
    exact hdrawn
  · rw [hid] at hr1
    obtain rfl := Option.some.inj (hrow'.symm.trans hr1)
    exact hattempts.symm
  · exact absurd (habove _ (h.spent _ _ hmem)) (lt_irrefl _)
  · have hlt := habove _ (hsame ▸ (h.fresh w' ev' hev').1)
    exact absurd heq hlt.ne

theorem Next.ledger {a : WorkerAction} (hs : Next d w s.world (s.party w) a v' x') (h : Ledger d M s) (hM : 1 ≤ M)
    (hmax : ∀ w, (d.config w).maxAttempts = M) (hC : TakesOverWithin d M s (.party w a)) :
    Ledger d M ⟨v', Function.update s.party w x'⟩ := by
  have hworld : Budget d M v'.inbox ∧ Counts d M s.world.inbox v'.inbox := by
    rcases hs.inbox with hsame | ⟨b, hcall, hb⟩
    · rw [hsame]
      exact ⟨h.budget, .refl _⟩
    · have hobeys := hcall.obeys h hmax hC
      exact ⟨h.budget.step hM hobeys hb, h.budget.counts hM hobeys hb⟩
  have hquiet := h.of_worker w x' v' hworld.1 hworld.2
  cases hs with
  | @claimed token now record eventID inbox db result hpc hs hclaim =>
    by_cases hclaimed : result.disposition = .claimed
    · have hdispatch : dispatch (s.party w) record eventID result =
          (s.party w).goto (.beginning record result.event) := by
        unfold dispatch
        rw [hclaimed]
      rw [hdispatch]
      exact h.claimed hM ((StoreCall.claim hpc).obeys h hmax hC) hs hclaim hclaimed
    · have hnone : (dispatch (s.party w) record eventID result).pc.event = none ∧
          (dispatch (s.party w) record eventID result).pc.unstarted = none := by
        unfold dispatch
        split
        · exact ⟨rfl, rfl⟩
        · exact ⟨rfl, rfl⟩
        · exact ⟨rfl, rfl⟩
        · rename_i heq
          exact absurd heq hclaimed
      refine hquiet (fun _ => rfl) (fun ev hev => ?_) fun ev hev => ?_
      · rw [hnone.1] at hev
        cases hev
      · rw [hnone.2] at hev
        cases hev
  | @began record event inbox hpc hs =>
    obtain ⟨hspent, hnew⟩ := h.fresh w event (by rw [hpc]; rfl)
    have hledger := h.of_worker w ((s.party w).goto (.handling record event s.world.inbox.next none))
      (s.world.withInbox inbox) hworld.1 hworld.2 (fun _ => rfl) (fun ev hev => by rw [hpc]; exact hev)
      fun ev hev => nomatch hev
    refine hledger.start (hworld.2.spent hspent) hnew fun w' ev' hev' hid => ?_
    dsimp only at hev'
    by_cases hw : w' = w
    · subst hw
      rw [Function.update_self] at hev'
      cases hev'
    · rw [Function.update_of_ne hw] at hev'
      exact h.apart w' w ev' event hev' (by rw [hpc]; rfl) hw hid
  | passed =>
    have hnone : ∀ x record, (startProcess d x record).pc.event = none ∧
        (startProcess d x record).pc.unstarted = none := by
      intro x record
      unfold startProcess
      split <;> exact ⟨rfl, rfl⟩
    refine hquiet (fun _ => rfl) (fun ev hev => ?_) fun ev hev => ?_
    · rw [(hnone _ _).1] at hev
      cases hev
    · rw [(hnone _ _).2] at hev
      cases hev
  | assigned | released | connected | polled => exact hquiet (fun _ => rfl) (fun _ h => h) fun _ h => h
  | beginFailed hpc | renewFailed hpc | renewed hpc | handlerFailed hpc | handled hpc | marked hpc =>
    refine hquiet (fun _ => rfl) (fun ev hev => ?_) fun ev hev => nomatch hev
    rw [hpc]
    exact hev
  | _ => exact hquiet (fun _ => rfl) (fun _ h => nomatch h) fun _ h => nomatch h

omit [DecidableEq ω] in
theorem Ledger.env_step (h : Ledger d M s) (hM : 1 ≤ M) {e : EnvAction} (hs : envStep s.world e = some v') :
    Ledger d M ⟨v', s.party⟩ := by
  have hstarts : ∀ k, starts v'.events k = starts s.world.events k := fun k => by rw [envStep_events hs]
  rcases envStep_inbox hs with hsame | ⟨b, hcall, hb⟩
  · exact h.of_counts v' (hsame ▸ h.budget) (hsame ▸ .refl _) hstarts (fun _ _ h => h) fun _ _ h => h
  · have hobeys : Obeys d M s.world.inbox b := hcall.obeys _
    exact h.of_counts v' (h.budget.step hM hobeys hb) (h.budget.counts hM hobeys hb) hstarts (fun _ _ h => h)
      fun _ _ h => h

end Workers

end Emitlane.Consumer
