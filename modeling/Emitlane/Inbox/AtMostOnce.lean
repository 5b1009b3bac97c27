import Emitlane.Inbox.System

/-!
# Inbox.AtMostOnce — the effects of a pair are committed at most once

The argument has two halves.  A transaction that carries the effects of a pair has written the pair's row before it
commits, over a row that was not `processed`; the lock keeps that row until the commit (`Txn.Held`), so the commit is a
step of the row's lifecycle into `processed`.  And no step of the lifecycle leaves `processed` (`Move.processed`), so
there is no second such commit.
-/

namespace Emitlane.Inbox

/-- The observation is a commit of effects of the pair `k`. -/
def Obs.carries (k : Key) : Obs → Bool
  | .claimed _ _ => false
  | .committed _ effects => k ∈ effects

/-- The token of the newest claim of the pair `k`. -/
def newestClaim (k : Key) : List Obs → Option Uuid
  | [] => none
  | .claimed k' token :: hist => if k' = k then some token else newestClaim k hist
  | .committed _ _ :: hist => newestClaim k hist

def Row.isProcessed (r : Option Row) : Prop := ∃ x, r = some x ∧ x.status = .processed

structure Inv (s : State) : Prop where
  bounded : s.Bounded
  held : Txn.Held (fun r : Row => r.key) s.db.row s.writes
  txs : ∀ {t tx}, s.txs t = some tx → tx.Ok
  /-- A pair whose effects are committed is processed. -/
  spent : ∀ {o k}, o ∈ s.hist → o.carries k = true → Row.isProcessed (s.db.row k)
  once : ∀ k, (s.hist.filter (Obs.carries k)).length ≤ 1
  newest : ∀ {k r token}, s.db.row k = some r → r.leaseToken = some token → newestClaim k s.hist = some token

section Steps

variable {s s' : State} {a : Action}

theorem Tx.view_key {tx : Tx} {db : Db} {k : Key} {r : Row} (h : tx.view db k = some r) : r.key = k := by
  unfold Tx.view Txn.install at h
  rcases Option.or_eq_some_iff.mp h with hw | ⟨-, hrow⟩
  · obtain ⟨w, hfind, rfl⟩ := Option.map_eq_some_iff.mp hw
    simpa using List.find?_some hfind
  · exact (Db.row_eq_some.mp hrow).2

/-- A row that is not processed is not the transaction's own. -/
theorem Tx.Ok.row_of_view {tx : Tx} {db : Db} {k : Key} {r : Row} (hok : tx.Ok) (h : tx.view db k = some r)
    (hr : r.status ≠ .processed) : db.row k = some r := by
  unfold Tx.view Txn.install at h
  rcases Option.or_eq_some_iff.mp h with hw | ⟨-, hrow⟩
  · obtain ⟨w, hfind, rfl⟩ := Option.map_eq_some_iff.mp hw
    exact absurd (hok.work_ok.allowed w (List.mem_of_find?_eq_some hfind)).status.1 hr
  · exact hrow

theorem State.writes_of_tx {t : Nat} {tx : Tx} (htx : s.txs t = some tx) : s.writes t = some tx.work.writes := by
  rw [State.writes, htx, Option.map_some]

theorem State.writes_setTx (s : State) (t : Nat) (tx : Option Tx) :
    (s.setTx t tx).writes = Function.update s.writes t (tx.map (·.work.writes)) := by
  funext t'
  by_cases h : t' = t
  · subst h
    simp [State.writes, State.setTx]
  · simp [State.writes, State.setTx, Function.update_of_ne h]

/-- What a commit does to a row: nothing, or the step its write was made for. -/
theorem Inv.commit_move (hi : Inv s) {t : Nat} {tx : Tx} (htx : s.txs t = some tx) (now : Int) (k : Key) :
    Move now (s.db.row k) (Txn.install (·.key) s.db.row tx.work.writes k) := by
  by_cases hw : Txn.Writes (fun r : Row => r.key) tx.work.writes k
  · obtain ⟨w, hw, hk, hinstall⟩ := Txn.install_of_writes s.db.row hw
    have hold := hi.held.current (State.writes_of_tx htx) w hw
    rw [hinstall, ← hk, hold]
    rcases (hi.txs htx).work_ok.allowed w hw with
      ⟨started, k', rfl⟩ | ⟨started, k', token, r, -, -, hholds, rfl⟩
    · exact .marker started k'
    · exact .marked started hholds
  · rw [Txn.install_of_not_writes hw]
    exact .stay _

/-- **Every step moves every row along its lifecycle.** -/
theorem Next.move (hi : Inv s) (h : Next s a s') (k : Key) : Move s.clock (s.db.row k) (s'.db.row k) := by
  cases h with
  | @call _ k' db obs hcall =>
    by_cases hk : k = k'
    · rw [hk]
      exact hcall.move
    · rw [show db.row k = s.db.row k from hcall.others k hk]
      exact .stay _
  | commit htx hcalls hmarked hrows =>
    exact hrows k ▸ hi.commit_move htx s.clock k
  | _ => exact .stay _

theorem Next.processed (hi : Inv s) (h : Next s a s') {k : Key} {r : Row} (hr : s.db.row k = some r)
    (hs : r.status = .processed) : s'.db.row k = some r := by
  have hmove := h.move hi k
  rw [hr] at hmove
  exact hmove.processed hs

theorem Next.isProcessed (hi : Inv s) (h : Next s a s') {k : Key} (hk : Row.isProcessed (s.db.row k)) :
    Row.isProcessed (s'.db.row k) := by
  obtain ⟨r, hr, hs⟩ := hk
  exact ⟨r, h.processed hi hr hs, hs⟩

theorem Next.bounded (hi : Inv s) (h : Next s a s') : s'.Bounded := by
  have hset : ∀ {t tx x}, s.txs t = some tx → State.Bounded (s.setTx t x) := by
    intro t tx x htx t' ht'
    have hne : t' ≠ t := by
      rintro rfl
      rw [hi.bounded _ ht'] at htx
      cases htx
    exact (Function.update_of_ne hne _ _).trans (hi.bounded t' ht')
  cases h with
  | tick d => exact hi.bounded
  | idle => exact hi.bounded
  | call hcall => exact hi.bounded
  | begin managed =>
    intro t ht
    have hne : t ≠ s.next := fun h => absurd ht (by rw [h]; exact Nat.not_succ_le_self _)
    exact (Function.update_of_ne hne _ _).trans (hi.bounded t (Nat.le_of_succ_le ht))
  | markProcessed htx => exact hset htx
  | process htx => exact hset htx
  | «return» htx => exact hset htx
  | commit htx => exact hset htx
  | rollback t =>
    intro t' ht'
    by_contra hopen
    obtain ⟨tx, htx⟩ := Option.ne_none_iff_exists'.mp hopen
    rcases Runs.of_update htx with ⟨-, hnone⟩ | ⟨-, htx⟩
    · cases hnone
    · rw [hi.bounded t' ht'] at htx
      cases htx

theorem Next.held (hi : Inv s) (h : Next s a s') : Txn.Held (fun r : Row => r.key) s'.db.row s'.writes := by
  cases h with
  | tick d => exact hi.held
  | idle => exact hi.held
  | @call _ k db obs hcall =>
    refine hi.held.call fun k' hlocked => ?_
    by_cases hk : k' = k
    · subst hk
      exact hcall.free.resolve_right fun hfree => hfree hlocked
    · exact hcall.others k' hk
  | begin managed =>
    refine hi.held.shrink fun t ws' hws w hw => ?_
    obtain ⟨tx, htx, rfl⟩ := Option.map_eq_some_iff.mp hws
    rcases Runs.of_update htx with ⟨-, hnew⟩ | ⟨-, htx⟩
    · rw [← Option.some.inj hnew] at hw
      cases hw
    · exact ⟨tx.work.writes, State.writes_of_tx htx, hw⟩
  | @markProcessed t tx k token r htx hmanaged hcalls hview hholds hfree =>
    have hkey := Tx.view_key hview
    rw [State.writes_setTx]
    exact hi.held.write (State.writes_of_tx htx) (r.processed tx.startedAt) (hkey ▸ hfree)
  | @process t consumer eventID strict stale tx tx' busy htx hfree hp =>
    rw [State.writes_setTx, Option.map_some]
    obtain ⟨c, -, rfl | ⟨-, hbusy, rfl⟩⟩ := Tx.process_ok hp
    · have hsame : Function.update s.writes t (some tx.work.writes) = s.writes :=
        Function.update_eq_self_iff.mpr (State.writes_of_tx htx).symm
      rw [hsame]
      exact hi.held
    · exact hi.held.write (State.writes_of_tx htx) (markerRow tx.startedAt c.key) (hfree c.key hbusy)
  | @«return» t ok tx tx' result htx hr =>
    rw [State.writes_setTx]
    refine hi.held.shrink fun t' ws' hws w hw => ?_
    rcases Runs.of_update hws with ⟨rfl, hnew⟩ | ⟨-, hws⟩
    · rw [← Option.some.inj hnew] at hw
      exact ⟨tx.work.writes, State.writes_of_tx htx, Tx.return_subset (hi.txs htx) hr hw⟩
    · exact ⟨ws', hws, hw⟩
  | @commit t tx db htx hcalls hmarked hrows =>
    have hcommit := hi.held.commit (State.writes_of_tx htx)
    rw [← funext hrows] at hcommit
    exact (State.writes_setTx s t none) ▸ hcommit
  | rollback t =>
    rw [State.writes_setTx]
    refine hi.held.shrink fun t' ws' hws w hw => ?_
    rcases Runs.of_update hws with ⟨-, hnone⟩ | ⟨-, hws⟩
    · cases hnone
    · exact ⟨ws', hws, hw⟩

theorem Next.txs (hi : Inv s) (h : Next s a s') {t : Nat} {tx : Tx} (htx : s'.txs t = some tx) : tx.Ok := by
  -- one transaction is replaced, the others stay
  have hupdate : ∀ {t' : Nat} {x : Option Tx}, (∀ y, x = some y → y.Ok) →
    Function.update s.txs t' x t = some tx → tx.Ok := by
    intro t' x hx h
    rcases Runs.of_update h with ⟨-, hnew⟩ | ⟨-, hold⟩
    · exact hx tx hnew
    · exact hi.txs hold
  have hset : ∀ {t' : Nat} {x : Tx}, x.Ok → Function.update s.txs t' (some x) t = some tx → tx.Ok :=
    fun hx => hupdate fun _ hy => Option.some.inj hy ▸ hx
  cases h with
  | tick d => exact hi.txs htx
  | idle => exact hi.txs htx
  | call hcall => exact hi.txs htx
  | begin managed => exact hset (Tx.begin_ok _ _) htx
  | markProcessed h0 hmanaged hcalls hview hholds hfree =>
    have hrow := (hi.txs h0).row_of_view hview (Row.holds_status hholds)
    exact hset ((hi.txs h0).mark hcalls hmanaged hrow (Tx.view_key hview) hholds) htx
  | process h0 hfree hp => exact hset ((hi.txs h0).process hp) htx
  | «return» h0 hr => exact hset ((hi.txs h0).return hr) htx
  | commit => exact hupdate (fun _ hy => by cases hy) htx
  | rollback => exact hupdate (fun _ hy => by cases hy) htx

/-- The row of a pair whose effects a transaction is about to commit: not processed before, processed after. -/
theorem Inv.effects (hi : Inv s) {t : Nat} {tx : Tx} (htx : s.txs t = some tx)
    (hmarked : tx.managed.isSome = true → tx.marked = true) {k : Key} (hk : k ∈ tx.effects) :
    ¬ Row.isProcessed (s.db.row k) ∧ Row.isProcessed (Txn.install (·.key) s.db.row tx.work.writes k) := by
  have hok := (hi.txs htx).work_ok
  have hwrites : Txn.Writes (fun r : Row => r.key) tx.work.writes k := by
    rcases List.mem_append.mp hk with hm | hc
    · obtain ⟨⟨k', token⟩, hmanaged, rfl⟩ := Option.map_eq_some_iff.mp (Option.mem_toList.mp hm)
      obtain ⟨k1, token1, r, now, hmanaged1, hkey, -, hmem⟩ := hok.mark (hmarked (by rw [hmanaged]; rfl))
      rw [hmanaged] at hmanaged1
      obtain ⟨rfl, rfl⟩ := Prod.mk.inj (Option.some.inj hmanaged1)
      exact ⟨_, hmem, hkey⟩
    · exact hok.carries k hc
  constructor
  · rintro ⟨r, hr, hs⟩
    obtain ⟨w, hw, rfl⟩ := hwrites
    have hold := hi.held.current (State.writes_of_tx htx) w hw
    exact (hok.allowed w hw).status.2 r (hold.symm.trans hr) hs
  · obtain ⟨w, hw, -, hinstall⟩ := Txn.install_of_writes s.db.row hwrites
    exact ⟨w.new, hinstall, (hok.allowed w hw).status.1⟩

/-- The pairs of new commits were not processed before the step, and are after it. -/
theorem Next.hist (hi : Inv s) (h : Next s a s') :
    ∃ new, s'.hist = new ++ s.hist ∧ new.length ≤ 1 ∧ ∀ o ∈ new, ∀ k, o.carries k = true →
      ¬ Row.isProcessed (s.db.row k) ∧ Row.isProcessed (s'.db.row k) := by
  cases h with
  | @call _ k db obs hcall =>
    refine ⟨obs, rfl, ?_, ?_⟩
    · rcases hcall.observed with ⟨rfl, -⟩ | ⟨token, rfl, -⟩
      · exact Nat.zero_le _
      · exact Nat.le_refl _
    · intro o ho k' hcarries
      rcases hcall.observed with ⟨rfl, -⟩ | ⟨token, rfl, -⟩
      · cases ho
      · obtain rfl := List.mem_singleton.mp ho
        cases hcarries
  | @commit t tx db htx hcalls hmarked hrows =>
    refine ⟨[.committed t tx.effects], rfl, Nat.le_refl _, ?_⟩
    intro o ho k hcarries
    obtain rfl := List.mem_singleton.mp ho
    have heffects := hi.effects htx hmarked (of_decide_eq_true hcarries)
    rwa [← hrows k] at heffects
  | _ => exact ⟨[], rfl, Nat.zero_le _, fun _ ho => nomatch ho⟩

theorem Next.newest (hi : Inv s) (h : Next s a s') {k : Key} {r : Row} {token : Uuid} (hr : s'.db.row k = some r)
    (ht : r.leaseToken = some token) : newestClaim k s'.hist = some token := by
  cases h with
  | @call _ k' db obs hcall =>
    by_cases hk : k = k'
    · subst hk
      rcases hcall.observed with ⟨rfl, hkeep⟩ | ⟨token', rfl, -, r', hr', hholds⟩
      · obtain ⟨r0, hr0, ht0⟩ := hkeep r token hr ht
        exact hi.newest hr0 ht0
      · obtain rfl : r' = r := Option.some.inj (hr'.symm.trans hr)
        obtain rfl : token' = token := Option.some.inj ((Row.holds_iff.mp hholds).2.symm.trans ht)
        exact if_pos rfl
    · have hold := hi.newest ((hcall.others k hk).symm.trans hr) ht
      rcases hcall.observed with ⟨rfl, -⟩ | ⟨token', rfl, -⟩
      · exact hold
      · exact (if_neg (Ne.symm hk)).trans hold
  | @commit t tx db htx hcalls hmarked hrows =>
    rw [show db.row k = _ from hrows k] at hr
    by_cases hw : Txn.Writes (fun r : Row => r.key) tx.work.writes k
    · obtain ⟨w, hw, -, hinstall⟩ := Txn.install_of_writes s.db.row hw
      obtain rfl : w.new = r := Option.some.inj (hinstall.symm.trans hr)
      rw [((hi.txs htx).work_ok.allowed w hw).token] at ht
      cases ht
    · rw [Txn.install_of_not_writes hw] at hr
      exact hi.newest hr ht
  | tick d => exact hi.newest hr ht
  | idle => exact hi.newest hr ht
  | begin => exact hi.newest hr ht
  | markProcessed => exact hi.newest hr ht
  | process => exact hi.newest hr ht
  | «return» => exact hi.newest hr ht
  | rollback => exact hi.newest hr ht

/-! ### What a step keeps of a transaction -/

theorem Next.next_le (h : Next s a s') : s.next ≤ s'.next := by
  cases h with
  | begin => exact Nat.le_succ _
  | _ => exact Nat.le_refl _

/-- A transaction that was open before: its pair is as it was, and so are the pairs it carries unless a legacy call
runs in it. -/
theorem Next.tx (h : Next s a s') {t : Nat} {tx' : Tx} (hlt : t < s.next) (htx' : s'.txs t = some tx') :
    ∃ tx, s.txs t = some tx ∧ tx'.managed = tx.managed ∧
    (a.isLegacy = false → tx'.work.carries = tx.work.carries) := by
  have hset : ∀ {t0 : Nat} {tx0 : Tx} {x : Option Tx}, s.txs t0 = some tx0 →
      (∀ y, x = some y → y.managed = tx0.managed ∧ (a.isLegacy = false → y.work.carries = tx0.work.carries)) →
      Function.update s.txs t0 x t = some tx' →
      ∃ tx, s.txs t = some tx ∧ tx'.managed = tx.managed ∧
        (a.isLegacy = false → tx'.work.carries = tx.work.carries) := by
    intro t0 tx0 x htx0 hx h
    rcases Runs.of_update h with ⟨rfl, hnew⟩ | ⟨-, hold⟩
    · exact ⟨tx0, htx0, hx tx' hnew⟩
    · exact ⟨tx', hold, rfl, fun _ => rfl⟩
  cases h with
  | tick d => exact ⟨tx', htx', rfl, fun _ => rfl⟩
  | idle => exact ⟨tx', htx', rfl, fun _ => rfl⟩
  | call hcall => exact ⟨tx', htx', rfl, fun _ => rfl⟩
  | begin managed =>
    rcases Runs.of_update htx' with ⟨hnew, -⟩ | ⟨-, hold⟩
    · exact absurd hnew (Nat.ne_of_lt hlt)
    · exact ⟨tx', hold, rfl, fun _ => rfl⟩
  | markProcessed htx =>
    refine hset htx (fun y hy => ?_) htx'
    obtain rfl := Option.some.inj hy
    exact ⟨rfl, fun _ => rfl⟩
  | process htx hfree hp =>
    refine hset htx (fun y hy => ?_) htx'
    obtain rfl := Option.some.inj hy
    obtain ⟨c, -, rfl | ⟨-, -, rfl⟩⟩ := Tx.process_ok hp <;> exact ⟨rfl, fun hl => nomatch hl⟩
  | «return» htx hr =>
    refine hset htx (fun y hy => ?_) htx'
    obtain rfl := Option.some.inj hy
    obtain ⟨c, calls, w, -, -, rfl⟩ := Tx.return_ok hr
    exact ⟨rfl, fun hl => nomatch hl⟩
  | commit htx => exact hset htx (fun y hy => by cases hy) htx'
  | rollback t0 =>
    rcases Runs.of_update htx' with ⟨-, hnone⟩ | ⟨-, hold⟩
    · cases hnone
    · exact ⟨tx', hold, rfl, fun _ => rfl⟩

/-- Only MarkProcessed and the legacy calls write in a transaction. -/
theorem Next.tx_writes (h : Next s a s') (ha : a.isLegacy = false) {t : Nat} {tx' : Tx} (hmark : a ≠ .markProcessed t)
    (hlt : t < s.next) (htx' : s'.txs t = some tx') :
    ∃ tx, s.txs t = some tx ∧ tx'.work.writes = tx.work.writes := by
  have hother : ∀ {t0 : Nat} {x : Option Tx}, (t = t0 → x = none) → Function.update s.txs t0 x t = some tx' →
      ∃ tx, s.txs t = some tx ∧ tx'.work.writes = tx.work.writes := by
    intro t0 x hx h
    rcases Runs.of_update h with ⟨heq, hnew⟩ | ⟨-, hold⟩
    · rw [hx heq] at hnew
      cases hnew
    · exact ⟨tx', hold, rfl⟩
  cases h with
  | tick | idle | call => exact ⟨tx', htx', rfl⟩
  | begin => exact hother (fun heq => absurd heq (Nat.ne_of_lt hlt)) htx'
  | markProcessed => exact hother (fun heq => absurd (congrArg Action.markProcessed heq.symm) hmark) htx'
  | process | «return» => cases ha
  | commit | rollback => exact hother (fun _ => rfl) htx'

/-- A transaction that a step opens carries nothing yet. -/
theorem Next.opened (hi : Inv s) (h : Next s a s') {t : Nat} {tx' : Tx} (hge : s.next ≤ t)
    (htx' : s'.txs t = some tx') : tx'.work.carries = [] := by
  have hb := h.bounded hi
  cases h with
  | begin managed =>
    rcases Runs.of_update htx' with ⟨-, hnew⟩ | ⟨-, hold⟩
    · obtain rfl := Option.some.inj hnew
      rfl
    · exact nomatch (hi.bounded t hge).symm.trans hold
  | _ => exact nomatch (hb t hge).symm.trans htx'

/-- Only a commit commits effects. -/
theorem Next.quiet (h : Next s a s') (ha : ∀ t, a ≠ .commit t) :
    ∃ new, s'.hist = new ++ s.hist ∧ ∀ o ∈ new, ∀ k, o.carries k = false := by
  cases h with
  | @call _ k db obs hcall =>
    refine ⟨obs, rfl, fun o ho k' => ?_⟩
    rcases hcall.observed with ⟨rfl, -⟩ | ⟨token, rfl, -⟩
    · cases ho
    · obtain rfl := List.mem_singleton.mp ho
      rfl
  | commit htx => exact absurd rfl (ha _)
  | _ => exact ⟨[], rfl, fun _ ho => nomatch ho⟩

theorem Inv.next (hi : Inv s) (hs : step s a = some s') : Inv s' := by
  have h := next_of_step hi.bounded hs
  obtain ⟨new, hhist, hlen, hnew⟩ := h.hist hi
  refine ⟨h.bounded hi, h.held hi, h.txs hi, ?_, ?_, h.newest hi⟩
  · intro o k ho hcarries
    rw [hhist] at ho
    rcases List.mem_append.mp ho with ho | ho
    · exact (hnew o ho k hcarries).2
    · obtain ⟨r, hr, hstatus⟩ := hi.spent ho hcarries
      exact ⟨r, h.processed hi hr hstatus, hstatus⟩
  · intro k
    rw [hhist, List.filter_append, List.length_append]
    by_cases hnone : new.filter (Obs.carries k) = []
    · rw [hnone]
      exact (Nat.zero_add _).trans_le (hi.once k)
    -- the pair is committed now, so it was not committed before
    · obtain ⟨o, ho⟩ := List.exists_mem_of_ne_nil _ hnone
      obtain ⟨ho, hcarries⟩ := List.mem_filter.mp ho
      have hbefore : s.hist.filter (Obs.carries k) = [] := by
        refine List.filter_eq_nil_iff.mpr fun o' ho' hc' => ?_
        exact (hnew o ho k hcarries).1 (hi.spent ho' hc')
      rw [hbefore, List.length_nil, Nat.add_zero]
      exact (List.length_filter_le _ _).trans hlen

end Steps

theorem Inv.init (clock : Int) : Inv (State.init clock) where
  bounded _ _ := rfl
  held := Txn.Held.init
  txs h := nomatch h
  spent h := nomatch h
  once _ := Nat.zero_le _
  newest h := nomatch h

theorem Reachable.inv {s : State} (h : Reachable s) : Inv s := by
  obtain ⟨clock, hrun⟩ := h
  exact hrun.inv (fun _ _ _ hi _ hs => hi.next hs) (Inv.init clock)

/-- A processed row stays as it is for the rest of the run. -/
theorem Inv.processed_stays {s s' : State} (hi : Inv s) (hrun : Runs.Reach step Runs.Free s s') {k : Key} {r : Row}
    (hr : s.db.row k = some r) (hs : r.status = .processed) : s'.db.row k = some r := by
  refine (hrun.inv (I := fun s => Inv s ∧ s.db.row k = some r) ?_ ⟨hi, hr⟩).2
  rintro t a u ⟨hit, hrt⟩ - hstep
  exact ⟨hit.next hstep, (next_of_step hit.bounded hstep).processed hit hrt hs⟩

/-- The row of a handler's transaction that commits is leased under its token, by the newest claim. -/
theorem Inv.commit_current {s s' : State} (hi : Inv s) {t : Nat} {tx : Tx} {k : Key} {token : Uuid}
    (htx : s.txs t = some tx) (hmanaged : tx.managed = some (k, token)) (hs : step s (.commit t) = some s') :
    ∃ r, s.db.row k = some r ∧ r.holds token = true ∧ newestClaim k s.hist = some token := by
  have hmarked : tx.marked = true := by
    simp only [step, htx, hmanaged, Option.isNone_some, Bool.false_or] at hs
    split_ifs at hs with hready
    exact (Bool.and_eq_true_iff.mp hready).2
  obtain ⟨k', token', r, now, hmanaged', rfl, hholds, hmem⟩ := (hi.txs htx).work_ok.mark hmarked
  rw [hmanaged] at hmanaged'
  obtain ⟨rfl, rfl⟩ := Prod.mk.inj (Option.some.inj hmanaged')
  have hrow : s.db.row r.key = some r := hi.held.current (State.writes_of_tx htx) _ hmem
  exact ⟨r, hrow, hholds, hi.newest hrow (Row.holds_iff.mp hholds).2⟩

/-- **Protected effects are committed at most once.**  In every run of managed workers, operators and legacy callers:
at most one transaction with the effects of a pair commits; `processed` is never left; and the transaction of a handler
commits only while its token is the row's, which is the token of the newest claim. -/
theorem effects_at_most_once {s : State} (h : Reachable s) :
    (∀ k, (s.hist.filter (Obs.carries k)).length ≤ 1) ∧
    (∀ s' k r, Runs.Reach step Runs.Free s s' → s.db.row k = some r → r.status = .processed →
      s'.db.row k = some r) ∧
    ∀ s' t tx k token, s.txs t = some tx → tx.managed = some (k, token) → step s (.commit t) = some s' →
      ∃ r, s.db.row k = some r ∧ r.status = .inflight ∧ r.leaseToken = some token ∧
      newestClaim k s.hist = some token := by
  refine ⟨h.inv.once, fun s' k r hrun hr hs => h.inv.processed_stays hrun hr hs, ?_⟩
  intro s' t tx k token htx hmanaged hs
  obtain ⟨r, hr, hholds, hnewest⟩ := h.inv.commit_current htx hmanaged hs
  exact ⟨r, hr, (Row.holds_iff.mp hholds).1, (Row.holds_iff.mp hholds).2, hnewest⟩

/-- The pair of the example run. -/
def exampleKey : Key := ("billing", 7)

def exampleClaim (owner : String) : ClaimRequest where
  consumer := "billing"
  eventID := 7
  source := ⟨"orders", 0, 0, none⟩
  leaseOwner := owner
  leaseDuration := second

/-- A worker is slow, its lease is over and another worker claims the pair; a legacy caller meets the managed row, the
first worker has lost its token, the second one commits, and a second legacy call finds a duplicate. -/
def exampleTakeover : List Action :=
  [.claim (exampleClaim "w1") 1, .begin (some (exampleKey, 1)), .tick 1000000,
   .claim (exampleClaim "w2") 2, .begin (some (exampleKey, 2)), .begin none,
   .process 2 "billing" "00000000-0000-0000-0000-000000000007" false false,
   .markProcessed 0, .rollback 0, .markProcessed 1, .commit 1,
   .process 2 "billing" "00000000-0000-0000-0000-000000000007" false false, .return 2 true, .commit 2]

theorem effects_at_most_once_takeover : ∃ s : State, Reachable s ∧
    (s.hist.filter (Obs.carries exampleKey)).length = 1 ∧ ∀ k, (s.hist.filter (Obs.carries k)).length ≤ 1 := by
  obtain ⟨s, hrun, hp⟩ := Runs.exists_of_exec step (State.init 0) exampleTakeover
    (fun s => (s.hist.filter (Obs.carries exampleKey)).length = 1) (by decide +kernel)
  have hreach : Reachable s := ⟨0, hrun⟩
  exact ⟨s, hreach, of_decide_eq_true hp, (effects_at_most_once hreach).1⟩

end Emitlane.Inbox
